/-
Calendar texts are read back.

A day of the calendar is counted again as the day it was made of: walking off the months of its year loses no day
(`splitMonth_spec`), and the day that is left exists in its month. The text of a day has fields of one width, which are
read as their numbers; the text of a point in time adds a clock and a fraction of a second whose zeros at the end are left
out, which counts for nothing in the fraction. Main results:
- `Date.toDays_ofDays`: the day of the calendar has the number it was made of;
- `parseDate_formatDate`, `parseTimestamp_formatTimestamp`: what has a text is read of it.
-/
import PartitionedScan.Proofs.Calendar.TextOrder

namespace PartitionedScan.Calendar

namespace Date

/-! ## Counting back -/

/-- the days before the month that is found and the day in it make up the day of the year; the month has such a day -/
theorem splitMonth_spec {lengths : List Nat} (month : Nat) {index : Nat} (h : index < lengths.sum) :
    (lengths.take ((splitMonth lengths month index).1 - month)).sum + (splitMonth lengths month index).2 = index + 1 ∧
      (splitMonth lengths month index).2 ≤ lengths.getD ((splitMonth lengths month index).1 - month) 0 := by
  induction lengths generalizing month index with
  | nil => simp at h
  | cons length rest ih =>
    rw [List.sum_cons] at h
    rw [splitMonth]
    split_ifs with hlt
    · simpa using hlt
    · have hrest : index - length < rest.sum := by omega
      obtain ⟨hsum, hday⟩ := ih (month + 1) hrest
      have hlater := le_splitMonth rest (month + 1) (index - length)
      have hnext : (splitMonth rest (month + 1) (index - length)).1 - month =
          (splitMonth rest (month + 1) (index - length)).1 - (month + 1) + 1 := by omega
      rw [hnext, List.take_succ_cons, List.sum_cons, List.getD_cons_succ]
      exact ⟨by omega, hday⟩

/-- **The day of the calendar has the number it was made of** -/
theorem toDays_ofDays (days : Int) : (ofDays days).toDays = days := by
  have hfrom := (daysBeforeYear_yearOf (days + epoch)).1
  have hsum := (splitMonth_spec 1 (dayOfYear_lt (days + epoch))).1
  rw [List.sum_eq_foldl] at hsum
  unfold toDays daysBeforeMonth ofDays
  simp only
  omega

theorem isValid_ofDays (days : Int) : (ofDays days).isValid = true := by
  have hreal := real_ofDays days
  have hday := (splitMonth_spec 1 (dayOfYear_lt (days + epoch))).2
  simp only [isValid, Bool.and_eq_true, decide_eq_true_eq]
  exact ⟨⟨⟨hreal.month_pos, hreal.month_le⟩, hreal.day_pos⟩, hday⟩

/-! ## Fields of one width -/

theorem isDigit_digitChar {n : Nat} (h : n < 10) : (Nat.digitChar n).isDigit = true := by
  rw [Nat.isDigit_digitChar, decide_eq_true h]

theorem all_isDigit_twoDigits (n : Nat) : (twoDigits n).all Char.isDigit = true := by
  have htens := isDigit_digitChar (Nat.mod_lt (n / 10) (by decide))
  have hones := isDigit_digitChar (Nat.mod_lt n (by decide))
  simp [twoDigits, htens, hones]

theorem ofDigitChars_twoDigits {n : Nat} (h : n < 100) (init : Nat) :
    Nat.ofDigitChars 10 (twoDigits n) init = 100 * init + n := by
  rw [twoDigits, Nat.ofDigitChars_cons_digitChar_of_lt_ten (Nat.mod_lt _ (by decide)),
    Nat.ofDigitChars_cons_digitChar_of_lt_ten (Nat.mod_lt _ (by decide)), Nat.ofDigitChars_nil]
  omega

theorem number?_twoDigits {n : Nat} (h : n < 100) : number? (twoDigits n) = some n := by
  rw [number?, if_pos (all_isDigit_twoDigits n), Text.Integer.value, ofDigitChars_twoDigits h, Nat.mul_zero, Nat.zero_add]

theorem number?_fourDigits {n : Nat} (h : n < 10000) : number? (fourDigits n) = some n := by
  have hall : (fourDigits n).all Char.isDigit = true := by
    rw [fourDigits, List.all_append, all_isDigit_twoDigits, all_isDigit_twoDigits, Bool.and_true]
  have hvalue : 100 * (100 * 0 + n / 100) + n % 100 = n := by omega
  rw [number?, if_pos hall, Text.Integer.value, fourDigits, Nat.ofDigitChars_append, ofDigitChars_twoDigits (by omega),
    ofDigitChars_twoDigits (by omega), hvalue]

/-! ## Days -/

theorem readUnsigned?_fields (negative : Bool) {year month day : Nat} (hyear : year < 10000) (hmonth : month < 100)
    (hday : day < 100) :
    readUnsigned? negative (fourDigits year ++ '-' :: twoDigits month ++ '-' :: twoDigits day) =
      if (⟨if negative then -(year : Int) else year, month, day⟩ : Date).isValid then
        some ⟨if negative then -(year : Int) else year, month, day⟩ else none := by
  have hread : readUnsigned? negative (fourDigits year ++ '-' :: twoDigits month ++ '-' :: twoDigits day) =
      (number? (fourDigits year)).bind fun year => (number? (twoDigits month)).bind fun month =>
        (number? (twoDigits day)).bind fun day =>
          if (⟨if negative then -(year : Int) else year, month, day⟩ : Date).isValid then
            some ⟨if negative then -(year : Int) else year, month, day⟩ else none := rfl
  rw [hread, number?_fourDigits hyear, number?_twoDigits hmonth, number?_twoDigits hday]
  rfl

theorem read?_digit {n : Nat} (h : n < 10) (rest : List Char) :
    read? (Nat.digitChar n :: rest) = readUnsigned? false (Nat.digitChar n :: rest) := by
  have hsign : ∀ n < 10, Nat.digitChar n ≠ '-' ∧ Nat.digitChar n ≠ '+' := by decide
  obtain ⟨hminus, hplus⟩ := hsign n h
  rw [read?]
  · intro r heq
    exact hminus (List.head_eq_of_cons_eq heq)
  · intro r heq
    exact hplus (List.head_eq_of_cons_eq heq)

/-- **The text of a day is read as the day** -/
theorem read?_chars {d : Date} (hvalid : d.isValid = true) (hreal : d.Real) (htext : d.InText) :
    read? d.chars = some d := by
  have hmonth := hreal.month_le
  have hday := hreal.day_le
  obtain ⟨hlow, hhigh⟩ := htext
  obtain ⟨year, month, day⟩ := d
  simp only at hlow hhigh hmonth hday
  have hyear : year.natAbs < 10000 := by omega
  by_cases hneg : year < 0
  · have hsign : -(year.natAbs : Int) = year := by omega
    rw [chars, if_pos hneg]
    have hread := readUnsigned?_fields true hyear (by omega : month < 100) (by omega : day < 100)
    rw [if_pos rfl, hsign, if_pos hvalid] at hread
    exact hread
  · have hsign : (year.natAbs : Int) = year := by omega
    rw [chars, if_neg hneg]
    have hread := readUnsigned?_fields false hyear (by omega : month < 100) (by omega : day < 100)
    rw [if_neg Bool.false_ne_true, hsign, if_pos hvalid] at hread
    exact (read?_digit (Nat.mod_lt _ (by decide)) _).trans hread

end Date

/-- **What has a text as a day is read of it** -/
theorem parseDate_formatDate {days : Int32} {text : String} (h : formatDate days = some text) :
    parseDate text = some days := by
  obtain ⟨htext, hchars⟩ := formatDate_eq_some h
  have hread := Date.read?_chars (Date.isValid_ofDays days.toInt) (Date.real_ofDays days.toInt) htext
  rw [parseDate, hchars, hread, Option.map_some, Date.toDays_ofDays, Int32.ofInt_toInt]

/-! ## Fractions of a second -/

theorem isDigit_trimmedDigits {places m : Nat} (h : m < 10 ^ places) :
    ∀ c ∈ trimmedDigits places m, c.isDigit = true := by
  induction places generalizing m with
  | zero => exact List.forall_mem_nil _
  | succ places ih =>
    rw [trimmedDigits]
    split_ifs
    · exact List.forall_mem_nil _
    · rw [List.forall_mem_cons]
      exact ⟨Date.isDigit_digitChar (div_lt_ten h), ih (Nat.mod_lt _ (by positivity))⟩

/-- the digits of a fraction count as many nanoseconds as it has, though the zeros at its end are left out -/
theorem nanosOf_trimmedDigits {places m : Nat} (h : m < 10 ^ places) :
    nanosOf (10 ^ (places + 2)) (trimmedDigits places m) = m * 1000 := by
  induction places generalizing m with
  | zero =>
    have hm : m = 0 := by simpa using h
    rw [hm]
    rfl
  | succ places ih =>
    rw [trimmedDigits]
    split_ifs with hm
    · rw [hm]
      rfl
    · have hdigit : (Nat.digitChar (m / 10 ^ places)).toNat - 48 = m / 10 ^ places :=
        Nat.toNat_digitChar_sub_48_of_lt_ten (div_lt_ten h)
      have hunit : 10 ^ (places + 1 + 2) / 10 = 10 ^ (places + 2) := by
        rw [Nat.pow_succ, Nat.mul_div_cancel _ (by decide)]
      have hscale : 10 ^ (places + 1 + 2) = 10 ^ places * 1000 := by ring
      calc nanosOf (10 ^ (places + 1 + 2)) (Nat.digitChar (m / 10 ^ places) :: trimmedDigits places (m % 10 ^ places))
          = m / 10 ^ places * (10 ^ places * 1000) + m % 10 ^ places * 1000 := by
            rw [nanosOf, hdigit, hunit, ih (Nat.mod_lt _ (by positivity)), hscale]
        _ = (10 ^ places * (m / 10 ^ places) + m % 10 ^ places) * 1000 := by ring
        _ = m * 1000 := by rw [Nat.div_add_mod]

/-- the fraction of a second is read back, with the time zone behind it -/
theorem readFraction?_fractionChars {micros : Nat} (h : micros < 10 ^ 6) :
    readFraction? (fractionChars micros) = some (micros * 1000, ['Z']) := by
  rw [fractionChars]
  split_ifs with hzero
  · rw [hzero]
    rfl
  · have hdigits := isDigit_trimmedDigits h
    have hspan : (trimmedDigits 6 micros ++ ['Z']).span Char.isDigit = (trimmedDigits 6 micros, ['Z']) := by
      rw [List.span_eq_takeWhile_dropWhile, List.takeWhile_append_of_pos hdigits, List.dropWhile_append_of_pos hdigits]
      simp
    have hne : (trimmedDigits 6 micros).isEmpty = false :=
      List.isEmpty_eq_false_iff.2 (mt (trimmedDigits_eq_nil_iff h).1 hzero)
    have hnanos : nanosOf 100000000 (trimmedDigits 6 micros) = micros * 1000 := nanosOf_trimmedDigits h
    rw [fractionDigits_eq h, List.cons_append, readFraction?, hspan]
    simp only [hne, hnanos, Bool.false_eq_true, if_false]

/-! ## Points in time -/

theorem readTimestamp?_fields {d : Date} (hd : d.Real) (hlow : 0 ≤ d.year) (hhigh : d.year ≤ 9999)
    {hour minute second nanos : Nat} {rest zone : List Char} {offset : Int} (hhour : hour < 100) (hminute : minute < 100)
    (hsecond : second < 100) (hfraction : readFraction? rest = some (nanos, zone)) (hoffset : readOffset? zone = some offset) :
    readTimestamp? (d.chars ++ 'T' :: (Date.twoDigits hour ++
      ':' :: (Date.twoDigits minute ++ ':' :: Date.twoDigits second)) ++ rest) =
      nanosSinceEpoch? d hour minute second nanos offset := by
  have hmonth := hd.month_le
  have hday := hd.day_le
  obtain ⟨year, month, day⟩ := d
  obtain ⟨year, rfl⟩ := Int.eq_ofNat_of_zero_le hlow
  have hyear : year < 10000 := by
    simp only at hhigh
    omega
  have hread : readTimestamp? (Date.fourDigits year ++ '-' :: Date.twoDigits month ++ '-' :: Date.twoDigits day ++
      'T' :: (Date.twoDigits hour ++ ':' :: (Date.twoDigits minute ++ ':' :: Date.twoDigits second)) ++ rest) =
      (Date.number? (Date.fourDigits year)).bind fun year => (Date.number? (Date.twoDigits month)).bind fun month =>
        (Date.number? (Date.twoDigits day)).bind fun day => (Date.number? (Date.twoDigits hour)).bind fun hour =>
          (Date.number? (Date.twoDigits minute)).bind fun minute =>
            (Date.number? (Date.twoDigits second)).bind fun second => (readFraction? rest).bind fun fraction =>
              (readOffset? fraction.2).bind fun offset => if 'T'.toNat < 128 then
                nanosSinceEpoch? ⟨year, month, day⟩ hour minute second fraction.1 offset else none := rfl
  rw [Date.chars, if_neg (not_lt.2 hlow), List.nil_append, Int.natAbs_natCast, hread, Date.number?_fourDigits hyear,
    Date.number?_twoDigits (hmonth.trans_lt (by decide)), Date.number?_twoDigits (hday.trans_lt (by decide)),
    Date.number?_twoDigits hhour, Date.number?_twoDigits hminute, Date.number?_twoDigits hsecond, hfraction]
  simp only [Option.bind_some, hoffset]
  rfl

theorem nanosSinceEpoch?_utc {days : Int} {seconds nanos : Nat} (h : seconds < 86400) :
    nanosSinceEpoch? (Date.ofDays days) (seconds / 3600) (seconds / 60 % 60) (seconds % 60) nanos 0 =
      some ((days * 86400 + seconds) * 1000000000 + nanos) := by
  have hleap : (seconds % 60 == 60) = false := by
    rw [beq_eq_false_iff_ne]
    omega
  have hseconds : seconds / 3600 * 3600 + seconds / 60 % 60 * 60 + seconds % 60 = seconds := by omega
  have hclock : seconds / 3600 ≤ 23 ∧ seconds / 60 % 60 ≤ 59 ∧ seconds % 60 ≤ 59 := by omega
  simp only [nanosSinceEpoch?, hleap, Bool.false_eq_true, if_false, false_implies, and_true, Date.isValid_ofDays,
    Date.toDays_ofDays, hseconds, hclock, sub_zero, if_true]

theorem readTimestamp?_timestampChars {micros : Int} (h : InText micros) :
    readTimestamp? (timestampChars micros) = some (micros * 1000) := by
  obtain ⟨hlow, hhigh⟩ := h
  rw [div_dayLength] at hlow hhigh
  have hfraction : (micros % 1000000).toNat < 10 ^ 6 := by omega
  have hseconds : (micros / 1000000 % 86400).toNat < 86400 := by omega
  have htotal : (micros / 1000000 / 86400 * 86400 + (micros / 1000000 % 86400).toNat) * 1000000000 +
      ((micros % 1000000).toNat * 1000 : Nat) = micros * 1000 := by omega
  rw [timestampChars_eq, secondChars, clockChars, readTimestamp?_fields (Date.real_ofDays _) hlow hhigh (by omega)
    (by omega) (by omega) (readFraction?_fractionChars hfraction) rfl, nanosSinceEpoch?_utc hseconds, htotal]

/-- **What has a text as a point in time is read of it** -/
theorem parseTimestamp_formatTimestamp {micros : Int64} {text : String} (h : formatTimestamp micros = some text) :
    parseTimestamp text = some micros := by
  obtain ⟨htext, hchars⟩ := formatTimestamp_eq_some h
  rw [parseTimestamp, hchars, readTimestamp?_timestampChars htext, Option.map_some, Int.mul_tdiv_cancel _ (by decide),
    Int64.ofInt_toInt]

end PartitionedScan.Calendar
