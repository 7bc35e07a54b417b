/-
Cells that are decoded and encoded again.

The decoder takes more texts than the encoder writes: a sign or leading zeros before a whole number, a float in any
spelling, a time with an offset. What it makes of them is nearly always a value that the encoder can write, and writing
changes nothing more (`decode_reencoded`). A day that is read has a year of four digits, so it has a text again; a number of
a JSON document is finite. Only the text of a float can name no number at all, and a time near the ends of the calendar can
be moved out of it by its offset.
Main results:
- `Calendar.parseDate_bounds`: every day that is read has a text;
- `Field.decode_reencoded`: what a cell is decoded to is decoded from its own wire form, with the floats that have none.
-/
import PartitionedScan.Proofs.Decimal.Rounding
import PartitionedScan.Proofs.Filter.WireForm
import PartitionedScan.Proofs.Read.Decoding

namespace PartitionedScan

/-! ## Days that are read -/

namespace Text.Integer

theorem ofDigitChars_lt {cs : List Char} (h : ∀ c ∈ cs, c.isDigit = true) (init : Nat) :
    Nat.ofDigitChars 10 cs init < 10 ^ cs.length * (init + 1) := by
  induction cs generalizing init with
  | nil => simp
  | cons c cs ih =>
    rw [List.forall_mem_cons] at h
    have hdigit : c.toNat - '0'.toNat ≤ 9 := by
      have hc := h.1
      simp only [Char.isDigit, Bool.and_eq_true, decide_eq_true_eq, ge_iff_le, UInt32.le_iff_toNat_le] at hc
      have hnine : c.toNat ≤ 57 := hc.2
      have hzero : '0'.toNat = 48 := rfl
      omega
    rw [Nat.ofDigitChars_cons, List.length_cons, pow_succ, mul_assoc]
    apply lt_of_lt_of_le (ih h.2 _)
    apply Nat.mul_le_mul_left
    omega

theorem value_lt {cs : List Char} (h : ∀ c ∈ cs, c.isDigit = true) : value cs < 10 ^ cs.length := by
  have hlt := ofDigitChars_lt h 0
  rwa [zero_add, mul_one] at hlt

end Text.Integer

namespace Calendar

namespace Date

theorem number?_lt {cs : List Char} {n : Nat} (h : number? cs = some n) : n < 10 ^ cs.length := by
  rw [number?] at h
  split_ifs at h with hdigits
  cases h
  exact Text.Integer.value_lt (List.all_eq_true.1 hdigits)

theorem readUnsigned?_spec {negative : Bool} {cs : List Char} {d : Date} (h : readUnsigned? negative cs = some d) :
    d.isValid = true ∧ -9999 ≤ d.year ∧ d.year ≤ 9999 := by
  rw [readUnsigned?.eq_def] at h
  split at h
  · obtain ⟨year, hyear, h⟩ := Option.bind_eq_some_iff.1 h
    obtain ⟨month, hmonth, h⟩ := Option.bind_eq_some_iff.1 h
    obtain ⟨day, hday, h⟩ := Option.bind_eq_some_iff.1 h
    have hbound := number?_lt hyear
    simp only [List.length_cons, List.length_nil] at hbound
    obtain ⟨hvalid, hd⟩ := Option.ite_none_right_eq_some.1 h
    cases hd
    refine ⟨hvalid, ?_⟩
    dsimp only
    split_ifs <;> omega
  · cases h

theorem read?_spec {cs : List Char} {d : Date} (h : read? cs = some d) :
    d.isValid = true ∧ -9999 ≤ d.year ∧ d.year ≤ 9999 := by
  rw [read?.eq_def] at h
  split at h <;> exact readUnsigned?_spec h

theorem toDays_bounds {d : Date} (h : d.isValid = true) :
    daysBeforeYear d.year - epoch ≤ d.toDays ∧ d.toDays < daysBeforeYear (d.year + 1) - epoch := by
  simp only [isValid, Bool.and_eq_true, decide_eq_true_eq] at h
  obtain ⟨⟨⟨hfrom, hto⟩, hday⟩, hlast⟩ := h
  -- the months before this one and this one are among the months of the year
  have hmonths : daysBeforeMonth d.year d.month + (monthLengths d.year).getD (d.month - 1) 0 ≤ (monthLengths d.year).sum := by
    have hlt : d.month - 1 < (monthLengths d.year).length := by
      rw [show (monthLengths d.year).length = 12 from rfl]
      omega
    rw [daysBeforeMonth, ← List.sum_eq_foldl, List.getD_eq_getElem?_getD, List.getElem?_eq_getElem hlt, Option.getD_some,
      ← List.sum_take_succ _ _ hlt]
    exact List.Sublist.sum_le_sum (List.take_sublist _ _) (fun _ _ => Nat.zero_le _)
  rw [sum_monthLengths] at hmonths
  rw [toDays, daysBeforeYear_succ]
  split_ifs at hmonths ⊢ <;> omega

end Date

/-- **A day that is read has a text** -/
theorem parseDate_bounds {text : String} {days : Int32} (h : parseDate text = some days) :
    firstDay ≤ days.toInt ∧ days.toInt ≤ lastDay := by
  obtain ⟨d, hd, rfl⟩ := Option.map_eq_some_iff.1 h
  obtain ⟨hvalid, hlow, hhigh⟩ := Date.read?_spec hd
  obtain ⟨hfrom, hto⟩ := Date.toDays_bounds hvalid
  have hfirst : firstDay = daysBeforeYear (-9999) - epoch := by decide
  have hlast : lastDay + 1 = daysBeforeYear (9999 + 1) - epoch := by decide
  have hyear := daysBeforeYear_le hlow
  have hnext : daysBeforeYear (d.year + 1) ≤ daysBeforeYear (9999 + 1) := daysBeforeYear_le (by omega)
  have hbounds : firstDay ≤ d.toDays ∧ d.toDays ≤ lastDay := by omega
  rw [Int32.toInt_ofInt_of_le]
  · exact hbounds
  · unfold firstDay lastDay at hbounds
    omega
  · unfold firstDay lastDay at hbounds
    omega

end Calendar

/-! ## Cells -/

namespace DataType

variable {t : DataType} {raw : Json} {v : Value}

theorem isTypeOf_of_decode? (h : t.decode? raw = some v) : t.IsTypeOf v := by
  rw [decode?.eq_def] at h
  split at h
  case h_1 b =>
    cases h
    exact .boolean b
  case h_2 | h_3 =>
    obtain ⟨n, _, rfl⟩ := Option.map_eq_some_iff.1 h
    exact .long n
  case h_4 n =>
    cases h
    exact .double _
  case h_5 =>
    obtain ⟨x, _, rfl⟩ := Option.map_eq_some_iff.1 h
    exact .double x
  case h_6 | h_7 | h_8 =>
    cases h
    exact .string _
  case h_9 =>
    obtain ⟨data, _, rfl⟩ := Option.map_eq_some_iff.1 h
    exact .binary data
  case h_10 =>
    obtain ⟨days, _, rfl⟩ := Option.map_eq_some_iff.1 h
    exact .date days
  case h_11 =>
    obtain ⟨micros, _, rfl⟩ := Option.map_eq_some_iff.1 h
    exact .timestamp micros
  case h_12 => cases h

/-- a float without a number comes from a text -/
theorem string_of_decode? {x : Binary64} (h : t.decode? raw = some (.float x)) (hx : x.isFinite = false) :
    t = .double ∧ ∃ s, raw = .string s := by
  have htype := isTypeOf_of_decode? h
  cases htype
  refine ⟨rfl, ?_⟩
  cases raw with
  | string s => exact ⟨s, rfl⟩
  | number n =>
    cases h
    rw [Binary64.isFinite_toBinary64] at hx
    cases hx
  | _ => cases h

theorem inCalendar_of_decode? {days : Int32} (h : t.decode? raw = some (.date days)) : (Value.date days).InCalendar := by
  have htype := isTypeOf_of_decode? h
  cases htype
  cases raw with
  | string s =>
    obtain ⟨_, hdays, heq⟩ := Option.map_eq_some_iff.1 h
    cases heq
    exact Calendar.parseDate_bounds hdays
  | _ => cases h

end DataType

namespace Field

variable {f : Field} {raw : Json} {v : Value}

theorem decode_eq_ok_iff (hv : v ≠ .null) : f.decode raw = .ok v ↔ raw ≠ .null ∧ f.type.decode? raw = some v := by
  rw [decode]
  constructor
  · intro h
    split_ifs at h with hnull hnullable
    · cases h
      exact absurd rfl hv
    · refine ⟨fun heq => hnull (by rw [heq]; rfl), ?_⟩
      split at h
      · cases h
        assumption
      · cases h
  · rintro ⟨hraw, h⟩
    have hnull : raw.isNull = false := by
      revert hraw
      cases raw <;> simp [Json.isNull]
    rw [hnull, if_neg Bool.false_ne_true, h]

/-- **What a cell is decoded to is decoded from its own wire form**, unless it is a float that is no number or a time outside
the calendar. A float that is no number has no wire form, and comes from a text of a column of floats. -/
theorem decode_reencoded (h : f.decode raw = .ok v) (hv : v ≠ .null) :
    (v.Admitted → (∀ micros, v = .dateTime micros → v.InCalendar) → v.toJson ≠ .null ∧ f.decode v.toJson = .ok v) ∧
    (¬ v.Admitted → f.type = .double ∧ (∃ s, raw = .string s) ∧ v.toJson = .null) := by
  obtain ⟨_, hdecode⟩ := (decode_eq_ok_iff hv).1 h
  have htype := DataType.isTypeOf_of_decode? hdecode
  constructor
  · intro hadmitted htime
    have hcalendar : v.InCalendar := by
      cases v with
      | date days => exact DataType.inCalendar_of_decode? hdecode
      | dateTime micros => exact htime micros rfl
      | _ => trivial
    have hwire : v.toJson ≠ .null := by
      intro hnull
      exact (Value.toJson_eq_null_iff hadmitted).1 hnull hcalendar
    exact ⟨hwire, decode_toJson (.inr ⟨htype, hwire⟩)⟩
  · intro hrefused
    cases v with
    | null => exact absurd rfl hv
    | float x =>
      have hinfinite : x.isFinite = false := Bool.eq_false_of_not_eq_true hrefused
      obtain ⟨hdouble, htext⟩ := DataType.string_of_decode? hdecode hinfinite
      refine ⟨hdouble, htext, ?_⟩
      exact dif_neg hrefused
    | _ => exact absurd trivial hrefused

/-- a day with a plus sign, and the text of an infinite float -/
theorem decode_reencoded_spellings :
    (Field.decode ⟨"day", .date, false⟩ (.string "+2024-02-29") = .ok (.date 19782) ∧
      Field.decode ⟨"day", .date, false⟩ (Value.date 19782).toJson = .ok (.date 19782)) ∧
    (Field.decode ⟨"x", .double, true⟩ (.string "-Infinity") = .ok (.float (.infinity true)) ∧
      (Value.float (.infinity true)).toJson = .null) := by
  have hday : Field.decode ⟨"day", .date, false⟩ (.string "+2024-02-29") = .ok (.date 19782) := by decide +kernel
  have hinfinite : Field.decode ⟨"x", .double, true⟩ (.string "-Infinity") = .ok (.float (.infinity true)) := by
    decide +kernel
  have hrefused : ¬ (Value.float (.infinity true)).Admitted := by
    intro hfinite
    cases hfinite
  refine ⟨⟨hday, ?_⟩, hinfinite, ?_⟩
  · exact ((decode_reencoded hday (by decide)).1 trivial (by simp)).2
  · exact ((decode_reencoded hinfinite (by decide)).2 hrefused).2.2

/-- some values that are decoded have no wire form -/
theorem decode_without_wire_form :
    ¬ ∀ (f : Field) (raw : Json) (v : Value), f.decode raw = .ok v → v ≠ .null →
      v.toJson ≠ .null ∧ f.decode v.toJson = .ok v := by
  intro h
  have hnan : Field.decode ⟨"x", .double, true⟩ (.string "nan") = .ok (.float .nan) := by decide +kernel
  exact (h _ _ _ hnan (by decide)).1 (by decide)

end Field

end PartitionedScan
