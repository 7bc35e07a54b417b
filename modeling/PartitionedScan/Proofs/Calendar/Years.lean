/-
Days and times in the calendar.

The year of a day is found by a division that is off by at most one; `daysBeforeYear_yearOf` says that the corrected guess
holds the day. Months are walked off one by one. So the day of the calendar has a real month and a real day of the month,
and a later day number has a later date (`Date.ofDays_before`). Texts have four digits for the year, which leaves exactly
the days from `firstDay` to `lastDay` and the microseconds from `firstMicros` to `lastMicros`. Main results:
- `Date.ofDays_before`: counting days follows the calendar;
- `formatDate_eq_none_iff`, `formatTimestamp_eq_none_iff`: which days and which points in time have no text.
-/
import Mathlib.Tactic
import PartitionedScan.Calendar.Timestamp

namespace PartitionedScan.Calendar

/-! ## Years -/

theorem daysBeforeYear_succ (year : Int) :
    daysBeforeYear (year + 1) = daysBeforeYear year + if isLeap year then 366 else 365 := by
  unfold daysBeforeYear isLeap
  split_ifs with h
  · simp only [Bool.and_eq_true, Bool.or_eq_true, beq_iff_eq, bne_iff_ne] at h
    omega
  · simp only [Bool.and_eq_true, Bool.or_eq_true, beq_iff_eq, bne_iff_ne] at h
    omega

theorem daysBeforeYear_lt {year later : Int} (h : year < later) : daysBeforeYear year < daysBeforeYear later := by
  unfold daysBeforeYear
  omega

theorem daysBeforeYear_le {year later : Int} (h : year ≤ later) : daysBeforeYear year ≤ daysBeforeYear later := by
  rcases h.lt_or_eq with h | rfl
  · exact (daysBeforeYear_lt h).le
  · exact le_rfl

namespace Date

/-- the corrected guess is the year that holds the day -/
theorem daysBeforeYear_yearOf (n : Int) : daysBeforeYear (yearOf n) ≤ n ∧ n < daysBeforeYear (yearOf n + 1) := by
  unfold yearOf
  simp only
  split_ifs
  · unfold daysBeforeYear at *
    omega
  · unfold daysBeforeYear at *
    omega
  · rw [Int.sub_add_cancel]
    unfold daysBeforeYear at *
    omega

theorem le_yearOf_iff {year n : Int} : year ≤ yearOf n ↔ daysBeforeYear year ≤ n := by
  obtain ⟨hfrom, hto⟩ := daysBeforeYear_yearOf n
  constructor
  · intro h
    exact (daysBeforeYear_le h).trans hfrom
  · intro h
    by_contra hlt
    have : daysBeforeYear (yearOf n + 1) ≤ daysBeforeYear year := daysBeforeYear_le (by omega)
    omega

theorem yearOf_le_iff {year n : Int} : yearOf n ≤ year ↔ n < daysBeforeYear (year + 1) := by
  rw [← not_le, ← le_yearOf_iff]
  omega

theorem yearOf_mono {m n : Int} (h : m ≤ n) : yearOf m ≤ yearOf n :=
  le_yearOf_iff.2 ((daysBeforeYear_yearOf m).1.trans h)

/-! ## Months -/

theorem sum_monthLengths (year : Int) : (monthLengths year).sum = if isLeap year then 366 else 365 := by
  unfold monthLengths
  split_ifs <;> rfl

theorem monthLengths_le (year : Int) : ∀ length ∈ monthLengths year, length ≤ 31 := by
  unfold monthLengths
  split_ifs <;> decide

/-- a day within the months lies in one of them -/
theorem splitMonth_bounds {lengths : List Nat} (month : Nat) {index : Nat} (h : index < lengths.sum) :
    month ≤ (splitMonth lengths month index).1 ∧ (splitMonth lengths month index).1 < month + lengths.length ∧
      1 ≤ (splitMonth lengths month index).2 ∧ ∃ length ∈ lengths, (splitMonth lengths month index).2 ≤ length := by
  induction lengths generalizing month index with
  | nil => simp at h
  | cons length rest ih =>
    rw [List.sum_cons] at h
    rw [splitMonth]
    split_ifs with hlt
    · exact ⟨le_rfl, by simp, by simp, length, List.mem_cons_self, hlt⟩
    · have hrest : index - length < rest.sum := by omega
      obtain ⟨hfrom, hto, hday, longest, hmem, hle⟩ := ih (month + 1) hrest
      rw [List.length_cons]
      exact ⟨by omega, by omega, hday, longest, List.mem_cons_of_mem _ hmem, hle⟩

theorem le_splitMonth (lengths : List Nat) (month index : Nat) : month ≤ (splitMonth lengths month index).1 := by
  induction lengths generalizing month index with
  | nil => exact le_rfl
  | cons length rest ih =>
    rw [splitMonth]
    split_ifs
    · exact le_rfl
    · exact (Nat.le_succ month).trans (ih _ _)

/-- a later day of the year lies in a later month, or later in the same one -/
theorem splitMonth_before (lengths : List Nat) (month : Nat) {i j : Nat} (h : i < j) :
    (splitMonth lengths month i).1 < (splitMonth lengths month j).1 ∨
      (splitMonth lengths month i).1 = (splitMonth lengths month j).1 ∧
        (splitMonth lengths month i).2 < (splitMonth lengths month j).2 := by
  induction lengths generalizing month i j with
  | nil => exact Or.inr ⟨rfl, Nat.succ_lt_succ h⟩
  | cons length rest ih =>
    rw [splitMonth, splitMonth]
    split_ifs with hi hj hj
    · exact Or.inr ⟨rfl, Nat.succ_lt_succ h⟩
    · exact Or.inl (le_splitMonth rest (month + 1) (j - length))
    · omega
    · exact ih (month + 1) (by omega)

/-! ## Days -/

/-- earlier in the calendar -/
def Before (d e : Date) : Prop :=
  d.year < e.year ∨ d.year = e.year ∧ (d.month < e.month ∨ d.month = e.month ∧ d.day < e.day)

/-- the months and days of the month that there are -/
structure Real (d : Date) : Prop where
  month_pos : 1 ≤ d.month
  month_le : d.month ≤ 12
  day_pos : 1 ≤ d.day
  day_le : d.day ≤ 31

theorem year_ofDays (days : Int) : (ofDays days).year = yearOf (days + epoch) := rfl

/-- days of the year counted from zero stay within its months -/
theorem dayOfYear_lt (n : Int) : (n - daysBeforeYear (yearOf n)).toNat < (monthLengths (yearOf n)).sum := by
  obtain ⟨hfrom, hto⟩ := daysBeforeYear_yearOf n
  rw [daysBeforeYear_succ] at hto
  rw [sum_monthLengths]
  split_ifs at hto ⊢ <;> omega

theorem real_ofDays (days : Int) : (ofDays days).Real := by
  obtain ⟨hfrom, hto, hday, length, hmem, hle⟩ := splitMonth_bounds 1 (dayOfYear_lt (days + epoch))
  rw [show (monthLengths (yearOf (days + epoch))).length = 12 from rfl] at hto
  exact ⟨hfrom, Nat.le_of_lt_succ hto, hday, hle.trans (monthLengths_le _ _ hmem)⟩

/-- **Counting days follows the calendar**: a later day has a later date -/
theorem ofDays_before {x y : Int} (h : x < y) : (ofDays x).Before (ofDays y) := by
  have hle : yearOf (x + epoch) ≤ yearOf (y + epoch) := yearOf_mono (by omega)
  rcases hle.lt_or_eq with hlt | heq
  · exact Or.inl hlt
  · refine Or.inr ⟨heq, ?_⟩
    have hx := (daysBeforeYear_yearOf (x + epoch)).1
    unfold ofDays
    simp only [← heq]
    exact splitMonth_before _ 1 (by omega)

end Date

/-! ## Texts -/

/-- the first day of the year -9999 -/
def firstDay : Int := -4371587

/-- the last day of the year 9999 -/
def lastDay : Int := 2932896

/-- the first microsecond of the year 0 -/
def firstMicros : Int := -62167219200000000

/-- the last microsecond of the year 9999 -/
def lastMicros : Int := 253402300799999999

theorem year_bounds_iff (low high days : Int) :
    (low ≤ (Date.ofDays days).year ∧ (Date.ofDays days).year ≤ high) ↔
      daysBeforeYear low - epoch ≤ days ∧ days < daysBeforeYear (high + 1) - epoch := by
  rw [Date.year_ofDays, Date.le_yearOf_iff, Date.yearOf_le_iff]
  omega

/-- **The days without a text** are those before the year -9999 and those after the year 9999 -/
theorem formatDate_eq_none_iff (days : Int32) :
    formatDate days = none ↔ ¬ (firstDay ≤ days.toInt ∧ days.toInt ≤ lastDay) := by
  have hlow : daysBeforeYear (-9999) - epoch = firstDay := by decide
  have hhigh : daysBeforeYear (9999 + 1) - epoch = lastDay + 1 := by decide
  have hyears := year_bounds_iff (-9999) 9999 days.toInt
  rw [hlow, hhigh, Int.lt_add_one_iff] at hyears
  simp only [formatDate, hyears, ite_eq_right_iff, reduceCtorEq, imp_false]

example : (formatDate 2932896, formatDate 2932897) = (some "9999-12-31", none) := by decide

/-- **The points in time without a text** are those before the year 0 and those after the year 9999 -/
theorem formatTimestamp_eq_none_iff (micros : Int64) :
    formatTimestamp micros = none ↔ ¬ (firstMicros ≤ micros.toInt ∧ micros.toInt ≤ lastMicros) := by
  have hlow : daysBeforeYear 0 - epoch = -719528 := by decide
  have hhigh : daysBeforeYear (9999 + 1) - epoch = 2932897 := by decide
  have hyears := year_bounds_iff 0 9999 (micros.toInt / dayLength)
  have hmicros : (-719528 ≤ micros.toInt / dayLength ∧ micros.toInt / dayLength < 2932897) ↔
      firstMicros ≤ micros.toInt ∧ micros.toInt ≤ lastMicros := by
    unfold dayLength firstMicros lastMicros
    omega
  rw [hlow, hhigh, hmicros] at hyears
  simp only [formatTimestamp, hyears, ite_eq_right_iff, reduceCtorEq, imp_false]

end PartitionedScan.Calendar
