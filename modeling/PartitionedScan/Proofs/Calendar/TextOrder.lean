/-
The order of calendar texts.

Texts are compared character by character. Fields of one width stand in the order of their numbers (`fourDigits_lt`), so
texts of the same shape stand in the order of time (`lt_append`). Two things have another shape. A year below zero has its
sign in front and counts upwards into the past: two such years stand the other way round. The fraction of a second has as
many digits as it needs, and the `Z` behind it is greater than every digit and than the point: a time that is another one
cut off at some place of the fraction (`IsCutOf`) stands behind it, although it is earlier. Main results:
- `formatDate_lt`: days have texts in their order, unless both lie in different years before the year 0;
- `formatTimestamp_lt`: so have points in time, unless one is the other cut off.
-/
import PartitionedScan.Proofs.Calendar.Years

namespace PartitionedScan.Calendar

/-! ## Fields of one width -/

/-- what follows a field of one width does not count where the field decides -/
theorem lt_append {p q : List Char} (h : p < q) (hlen : p.length = q.length) (r s : List Char) : p ++ r < q ++ s := by
  induction p generalizing q with
  | nil =>
    rw [List.length_nil, eq_comm, List.length_eq_zero_iff] at hlen
    rw [hlen] at h
    cases h
  | cons a p ih =>
    cases q with
    | nil => cases hlen
    | cons b q =>
      rw [List.cons_append, List.cons_append, List.cons_lt_cons_iff]
      rcases List.cons_lt_cons_iff.1 h with hab | ⟨rfl, hpq⟩
      · exact Or.inl hab
      · exact Or.inr ⟨rfl, ih hpq (Nat.succ.inj hlen)⟩

theorem digitChar_lt : ∀ b < 10, ∀ a < b, Nat.digitChar a < Nat.digitChar b := by decide

namespace Date

theorem twoDigits_lt {m n : Nat} (h : m < n) (hn : n < 100) : twoDigits m < twoDigits n := by
  unfold twoDigits
  rw [Nat.mod_eq_of_lt (show m / 10 < 10 by omega), Nat.mod_eq_of_lt (show n / 10 < 10 by omega), List.cons_lt_cons_iff]
  by_cases htens : m / 10 < n / 10
  · exact Or.inl (digitChar_lt _ (by omega) _ htens)
  · have heq : m / 10 = n / 10 := by omega
    exact Or.inr ⟨by rw [heq], List.cons_lt_cons_iff.2 (Or.inl (digitChar_lt _ (by omega) _ (by omega)))⟩

theorem fourDigits_lt {m n : Nat} (h : m < n) (hn : n < 10000) : fourDigits m < fourDigits n := by
  unfold fourDigits
  by_cases hhundreds : m / 100 < n / 100
  · exact lt_append (twoDigits_lt hhundreds (by omega)) rfl _ _
  · have heq : m / 100 = n / 100 := by omega
    have hrest : twoDigits (m % 100) < twoDigits (n % 100) := twoDigits_lt (by omega) (by omega)
    rw [heq]
    exact List.append_left_lt hrest

/-! ## Days -/

/-- the sign and the digits of the year -/
def yearChars (d : Date) : List Char :=
  (if d.year < 0 then ['-'] else []) ++ fourDigits d.year.natAbs

/-- month and day of the month -/
def monthChars (d : Date) : List Char :=
  '-' :: twoDigits d.month ++ '-' :: twoDigits d.day

theorem chars_eq (d : Date) : d.chars = d.yearChars ++ d.monthChars := by
  simp only [chars, yearChars, monthChars, List.append_assoc]

theorem length_chars {d : Date} (h : 0 ≤ d.year) : d.chars.length = 10 := by
  rw [chars_eq, yearChars, if_neg (by omega)]
  rfl

theorem monthChars_lt {d e : Date} (he : e.Real) (h : d.month < e.month ∨ d.month = e.month ∧ d.day < e.day) :
    d.monthChars < e.monthChars := by
  have hmonth := he.month_le
  have hday := he.day_le
  unfold monthChars
  refine List.cons_lt_cons_iff.2 (Or.inr ⟨rfl, ?_⟩)
  rcases h with h | ⟨heq, h⟩
  · exact lt_append (twoDigits_lt h (by omega)) rfl _ _
  · rw [heq]
    exact List.append_left_lt (List.cons_lt_cons_iff.2 (Or.inr ⟨rfl, twoDigits_lt h (by omega)⟩))

/-- both before the year 0, in different years -/
def Reversed (d e : Date) : Prop :=
  d.year < 0 ∧ e.year < 0 ∧ d.year ≠ e.year

theorem Before.year_le {d e : Date} (h : d.Before e) : d.year ≤ e.year := by
  rcases h with h | ⟨h, _⟩ <;> exact h.le

/-- the years that have a text -/
def InText (d : Date) : Prop :=
  -9999 ≤ d.year ∧ d.year ≤ 9999

/-- **Days stand in the order of the calendar**, unless both lie in different years before the year 0 -/
theorem chars_lt {d e : Date} (h : d.Before e) (hrev : ¬ d.Reversed e) (hd : d.InText) (he : e.InText) (hreal : e.Real) :
    d.chars < e.chars := by
  obtain ⟨hlow, _⟩ := hd
  obtain ⟨_, hhigh⟩ := he
  rw [chars_eq, chars_eq]
  rcases h with hyear | ⟨hyear, hmonth⟩
  · unfold yearChars
    by_cases hneg : d.year < 0
    · -- the sign of the earlier year is less than every digit of the later one
      have hpos : ¬ e.year < 0 := fun he => hrev ⟨hneg, he, hyear.ne⟩
      rw [if_pos hneg, if_neg hpos]
      refine List.cons_lt_cons_iff.2 (Or.inl ?_)
      have hsign : ∀ n < 10, '-' < Nat.digitChar n := by decide
      exact hsign _ (Nat.mod_lt _ (by decide))
    · have hpos : ¬ e.year < 0 := by omega
      have hdigits : fourDigits d.year.natAbs < fourDigits e.year.natAbs := fourDigits_lt (by omega) (by omega)
      rw [if_neg hneg, if_neg hpos, List.nil_append, List.nil_append]
      exact lt_append hdigits rfl _ _
  · have hsame : d.yearChars = e.yearChars := by rw [yearChars, yearChars, hyear]
    rw [hsame]
    exact List.append_left_lt (monthChars_lt hreal hmonth)

/-- days in different years before the year 0 stand the other way round -/
theorem chars_lt_of_reversed {d e : Date} (h : d.Before e) (hrev : d.Reversed e) (hd : d.InText) : e.chars < d.chars := by
  obtain ⟨hdneg, heneg, hne⟩ := hrev
  obtain ⟨hlow, _⟩ := hd
  have hyear : d.year < e.year := by
    rcases h with h | ⟨h, _⟩
    · exact h
    · exact absurd h hne
  rw [chars_eq, chars_eq, yearChars, yearChars, if_pos hdneg, if_pos heneg]
  have hdigits : fourDigits e.year.natAbs < fourDigits d.year.natAbs := fourDigits_lt (by omega) (by omega)
  exact List.cons_lt_cons_iff.2 (Or.inr ⟨rfl, lt_append hdigits rfl _ _⟩)

end Date

/-! ## Fractions of a second -/

/-- `m` is `n` with the last `k` of its decimal places made zero, for some `k` up to `places` -/
def CutNat (places m n : Nat) : Prop :=
  ∃ k ≤ places, m = n / 10 ^ k * 10 ^ k

/-- the digits of a fraction with `places` decimal places, up to the last that is not zero -/
def trimmedDigits : Nat → Nat → List Char
  | 0, _ => []
  | places + 1, m => if m = 0 then [] else Nat.digitChar (m / 10 ^ places) :: trimmedDigits places (m % 10 ^ places)

/-- all digits of a fraction with `places` decimal places -/
def allDigits : Nat → Nat → List Char
  | 0, _ => []
  | places + 1, m => Nat.digitChar (m / 10 ^ places) :: allDigits places (m % 10 ^ places)

theorem trimmedDigits_zero (places : Nat) : trimmedDigits places 0 = [] := by
  cases places <;> rfl

theorem trimmedDigits_eq_nil_iff {places m : Nat} (h : m < 10 ^ places) : trimmedDigits places m = [] ↔ m = 0 := by
  cases places with
  | zero => simpa [trimmedDigits] using h
  | succ places => simp [trimmedDigits]

theorem div_lt_ten {places m : Nat} (h : m < 10 ^ (places + 1)) : m / 10 ^ places < 10 := by
  rw [Nat.div_lt_iff_lt_mul (by positivity), Nat.mul_comm, ← Nat.pow_succ]
  exact h

/-- dropping the zeros at the end leaves the digits up to the last that is not zero -/
theorem dropZeros_allDigits {places m : Nat} (h : m < 10 ^ places) :
    ((allDigits places m).reverse.dropWhile (· == '0')) = (trimmedDigits places m).reverse := by
  induction places generalizing m with
  | zero => rfl
  | succ places ih =>
    have hrest : m % 10 ^ places < 10 ^ places := Nat.mod_lt _ (by positivity)
    have hdigit : ∀ n < 10, (Nat.digitChar n == '0') = decide (n = 0) := by decide
    rw [allDigits, List.reverse_cons, List.dropWhile_append, ih hrest, List.isEmpty_reverse, trimmedDigits]
    by_cases hzero : m % 10 ^ places = 0
    · rw [hzero, trimmedDigits_zero]
      by_cases hm : m = 0
      · simp [hm]
      · have hfirst : m / 10 ^ places ≠ 0 := by
          intro hfirst
          have := Nat.div_add_mod m (10 ^ places)
          rw [hzero, hfirst] at this
          omega
        simp [hm, hdigit _ (div_lt_ten h), hfirst]
    · have hm : m ≠ 0 := fun hm => hzero (by rw [hm, Nat.zero_mod])
      have hne : trimmedDigits places (m % 10 ^ places) ≠ [] := mt (trimmedDigits_eq_nil_iff hrest).1 hzero
      rw [if_neg hm, List.isEmpty_eq_false_iff.2 hne, List.reverse_cons]
      rfl

theorem fractionDigits_eq {micros : Nat} (h : micros < 10 ^ 6) :
    TimeOfDay.fractionDigits micros = trimmedDigits 6 micros := by
  have hall : Date.twoDigits (micros / 10000) ++ Date.twoDigits (micros / 100 % 100) ++ Date.twoDigits (micros % 100) =
      allDigits 6 micros := by
    simp only [Date.twoDigits, allDigits, List.cons_append, List.nil_append, List.cons.injEq, and_true]
    refine ⟨?_, ?_, ?_, ?_, ?_, ?_⟩ <;> congr 1 <;> omega
  rw [TimeOfDay.fractionDigits, hall, dropZeros_allDigits h, List.reverse_reverse]

/-! ## Cutting off decimal places -/

theorem cut_div {k places : Nat} (h : k ≤ places) (n : Nat) : n / 10 ^ k * 10 ^ k / 10 ^ places = n / 10 ^ places := by
  obtain ⟨more, rfl⟩ := Nat.exists_eq_add_of_le h
  rw [Nat.pow_add, Nat.mul_comm (10 ^ k) (10 ^ more), Nat.mul_div_mul_right _ _ (by positivity),
    Nat.mul_comm (10 ^ more), Nat.div_div_eq_div_mul]

theorem cut_mod {k places : Nat} (h : k ≤ places) (n : Nat) :
    n / 10 ^ k * 10 ^ k % 10 ^ places = n % 10 ^ places / 10 ^ k * 10 ^ k := by
  obtain ⟨more, rfl⟩ := Nat.exists_eq_add_of_le h
  rw [Nat.pow_add, Nat.mul_comm (10 ^ k) (10 ^ more), Nat.mul_mod_mul_right, Nat.mul_comm (10 ^ more),
    Nat.mod_mul_right_div_self]

theorem CutNat.zero {places n : Nat} (h : n < 10 ^ places) : CutNat places 0 n :=
  ⟨places, le_rfl, by rw [Nat.div_eq_of_lt h, Nat.zero_mul]⟩

/-- cutting at a place behind the first digit leaves the first digit -/
theorem CutNat.first_eq {places m n : Nat} (h : CutNat (places + 1) m n) (hm : m ≠ 0) (hn : n < 10 ^ (places + 1)) :
    m / 10 ^ places = n / 10 ^ places := by
  obtain ⟨k, hk, rfl⟩ := h
  rcases hk.lt_or_eq with hlt | rfl
  · exact cut_div (Nat.le_of_lt_succ hlt) n
  · rw [Nat.div_eq_of_lt hn, Nat.zero_mul] at hm
    exact absurd rfl hm

/-- behind equal first digits the rest is cut -/
theorem CutNat.rest_iff {places m n : Nat} (hm : m ≠ 0) (hn : n < 10 ^ (places + 1))
    (hfirst : m / 10 ^ places = n / 10 ^ places) :
    CutNat (places + 1) m n ↔ CutNat places (m % 10 ^ places) (n % 10 ^ places) := by
  constructor
  · rintro ⟨k, hk, rfl⟩
    rcases hk.lt_or_eq with hlt | rfl
    · exact ⟨k, Nat.le_of_lt_succ hlt, cut_mod (Nat.le_of_lt_succ hlt) n⟩
    · rw [Nat.div_eq_of_lt hn, Nat.zero_mul] at hm
      exact absurd rfl hm
  · rintro ⟨k, hk, hrest⟩
    refine ⟨k, hk.trans (Nat.le_succ places), ?_⟩
    rw [← Nat.div_add_mod m (10 ^ places), ← Nat.div_add_mod (n / 10 ^ k * 10 ^ k) (10 ^ places), cut_div hk, cut_mod hk,
      hfirst, hrest]

/-- **Fractions stand in the order of their numbers**, except that a fraction cut off stands behind the whole one -/
theorem trimmedDigits_order {places m n : Nat} (h : m < n) (hn : n < 10 ^ places) (rest : List Char) :
    (CutNat places m n → trimmedDigits places n ++ 'Z' :: rest < trimmedDigits places m ++ 'Z' :: rest) ∧
      (¬ CutNat places m n → trimmedDigits places m ++ 'Z' :: rest < trimmedDigits places n ++ 'Z' :: rest) := by
  induction places generalizing m n with
  | zero => omega
  | succ places ih =>
    have hnpos : n ≠ 0 := by omega
    have hndigit := div_lt_ten hn
    rw [trimmedDigits, trimmedDigits, if_neg hnpos]
    by_cases hm : m = 0
    · -- nothing is left of the cut fraction, and the `Z` is greater than the first digit of the whole one
      subst hm
      have hz : ∀ d < 10, Nat.digitChar d < 'Z' := by decide
      refine ⟨fun _ => ?_, fun hcut => absurd (CutNat.zero hn) hcut⟩
      rw [if_pos rfl]
      exact List.cons_lt_cons_iff.2 (Or.inl (hz _ hndigit))
    · rw [if_neg hm, List.cons_append, List.cons_append, List.cons_lt_cons_iff, List.cons_lt_cons_iff]
      have hle : m / 10 ^ places ≤ n / 10 ^ places := Nat.div_le_div_right h.le
      rcases hle.lt_or_eq with hfirst | hfirst
      · exact ⟨fun hcut => absurd (hcut.first_eq hm hn) hfirst.ne, fun _ => Or.inl (digitChar_lt _ hndigit _ hfirst)⟩
      · have hrest : m % 10 ^ places < n % 10 ^ places := by
          have hmsum := Nat.div_add_mod m (10 ^ places)
          have hnsum := Nat.div_add_mod n (10 ^ places)
          rw [hfirst] at hmsum
          omega
        obtain ⟨hcut, hplain⟩ := ih hrest (Nat.mod_lt _ (by positivity))
        rw [CutNat.rest_iff hm hn hfirst, hfirst]
        exact ⟨fun h => Or.inr ⟨rfl, hcut h⟩, fun h => Or.inr ⟨rfl, hplain h⟩⟩

/-! ## Points in time -/

/-- the fraction of a second and the time zone -/
def fractionChars (micros : Nat) : List Char :=
  (if micros = 0 then [] else '.' :: TimeOfDay.fractionDigits micros) ++ ['Z']

/-- hours, minutes and seconds -/
def clockChars (seconds : Nat) : List Char :=
  Date.twoDigits (seconds / 3600) ++
    ':' :: (Date.twoDigits (seconds / 60 % 60) ++ ':' :: Date.twoDigits (seconds % 60))

/-- day and time of day to the second -/
def secondChars (seconds : Int) : List Char :=
  (Date.ofDays (seconds / 86400)).chars ++ 'T' :: clockChars (seconds % 86400).toNat

/-- the text of a point in time -/
def timestampChars (micros : Int) : List Char :=
  (Date.ofDays (micros / dayLength)).chars ++ 'T' :: (TimeOfDay.ofMicros (micros % dayLength).toNat).chars ++ ['Z']

theorem div_dayLength (micros : Int) : micros / dayLength = micros / 1000000 / 86400 := by
  unfold dayLength
  omega

theorem timestampChars_eq (micros : Int) :
    timestampChars micros = secondChars (micros / 1000000) ++ fractionChars (micros % 1000000).toNat := by
  have hsecond : (micros % dayLength).toNat / 1000000 = (micros / 1000000 % 86400).toNat := by unfold dayLength; omega
  have hfraction : (micros % dayLength).toNat % 1000000 = (micros % 1000000).toNat := by unfold dayLength; omega
  simp only [timestampChars, secondChars, fractionChars, clockChars, TimeOfDay.chars, TimeOfDay.ofMicros, div_dayLength, hsecond,
    hfraction, List.append_assoc, List.cons_append]

theorem clockChars_lt {m n : Nat} (h : m < n) (hn : n < 86400) : clockChars m < clockChars n := by
  unfold clockChars
  have hhours : m / 3600 ≤ n / 3600 := Nat.div_le_div_right h.le
  rcases hhours.lt_or_eq with hhour | hhour
  · exact lt_append (Date.twoDigits_lt hhour (by omega)) rfl _ _
  rw [hhour]
  refine List.append_left_lt (List.cons_lt_cons_iff.2 (Or.inr ⟨rfl, ?_⟩))
  have hminutes : m / 60 % 60 ≤ n / 60 % 60 := by omega
  rcases hminutes.lt_or_eq with hminute | hminute
  · exact lt_append (Date.twoDigits_lt hminute (by omega)) rfl _ _
  rw [hminute]
  have hsecond : m % 60 < n % 60 := by omega
  exact List.append_left_lt (List.cons_lt_cons_iff.2 (Or.inr ⟨rfl, Date.twoDigits_lt hsecond (by omega)⟩))

theorem length_secondChars {s : Int} (h : 0 ≤ (Date.ofDays (s / 86400)).year) : (secondChars s).length = 19 := by
  rw [secondChars, List.length_append, Date.length_chars h]
  rfl

/-- up to the second, points in time stand in their order -/
theorem secondChars_lt {s t : Int} (h : s < t) (hs : 0 ≤ (Date.ofDays (s / 86400)).year)
    (ht : (Date.ofDays (t / 86400)).year ≤ 9999) : secondChars s < secondChars t := by
  unfold secondChars
  have hdays : s / 86400 ≤ t / 86400 := Int.ediv_le_ediv (by decide) h.le
  rcases hdays.lt_or_eq with hday | hday
  · have hbefore := Date.ofDays_before hday
    have hyear := hbefore.year_le
    have hrev : ¬ (Date.ofDays (s / 86400)).Reversed (Date.ofDays (t / 86400)) := fun hrev => absurd hrev.1 (by omega)
    refine lt_append (Date.chars_lt hbefore hrev ⟨by omega, by omega⟩ ⟨by omega, ht⟩ (Date.real_ofDays _)) ?_ _ _
    rw [Date.length_chars hs, Date.length_chars (hs.trans hyear)]
  · rw [hday]
    exact List.append_left_lt (List.cons_lt_cons_iff.2 (Or.inr ⟨rfl, clockChars_lt (by omega) (by omega)⟩))

theorem fractionChars_order {m n : Nat} (h : m < n) (hn : n < 10 ^ 6) :
    (CutNat 6 m n → fractionChars n < fractionChars m) ∧ (¬ CutNat 6 m n → fractionChars m < fractionChars n) := by
  have hnpos : n ≠ 0 := by omega
  unfold fractionChars
  rw [if_neg hnpos, fractionDigits_eq hn]
  by_cases hm : m = 0
  · -- a whole second has the `Z` where a part of one has the point
    subst hm
    refine ⟨fun _ => ?_, fun hcut => absurd (CutNat.zero hn) hcut⟩
    exact List.cons_lt_cons_iff.2 (Or.inl (by decide))
  · rw [if_neg hm, fractionDigits_eq (h.trans hn)]
    obtain ⟨hcut, hplain⟩ := trimmedDigits_order h hn []
    exact ⟨fun h => List.cons_lt_cons_iff.2 (Or.inr ⟨rfl, hcut h⟩),
      fun h => List.cons_lt_cons_iff.2 (Or.inr ⟨rfl, hplain h⟩)⟩

/-- `x` is `y` with the last `k` of the six decimal places of its second made zero, for some `k` -/
def IsCutOf (x y : Int) : Prop :=
  ∃ k ≤ 6, x = y / 10 ^ k * 10 ^ k

instance (x y : Int) : Decidable (IsCutOf x y) :=
  inferInstanceAs (Decidable (∃ k, k ≤ 6 ∧ x = y / 10 ^ k * 10 ^ k))

/-- a time cut off is one in the same second with its fraction cut off -/
theorem isCutOf_iff {x y : Int} :
    IsCutOf x y ↔ x / 1000000 = y / 1000000 ∧ CutNat 6 (x % 1000000).toNat (y % 1000000).toNat := by
  constructor
  · rintro ⟨k, hk, rfl⟩
    refine ⟨?_, k, hk, ?_⟩ <;> interval_cases k <;> omega
  · rintro ⟨hsecond, k, hk, hcut⟩
    refine ⟨k, hk, ?_⟩
    interval_cases k <;> omega

/-- the years that a point in time has a text in -/
def InText (micros : Int) : Prop :=
  0 ≤ (Date.ofDays (micros / dayLength)).year ∧ (Date.ofDays (micros / dayLength)).year ≤ 9999

/-- **Points in time stand in their order**, unless the earlier one is the later one cut off -/
theorem timestampChars_lt {x y : Int} (h : x < y) (hcut : ¬ IsCutOf x y) (hx : InText x) (hy : InText y) :
    timestampChars x < timestampChars y := by
  obtain ⟨hlow, _⟩ := hx
  obtain ⟨hlow', hhigh⟩ := hy
  rw [div_dayLength] at hlow hlow' hhigh
  rw [timestampChars_eq, timestampChars_eq]
  have hseconds : x / 1000000 ≤ y / 1000000 := Int.ediv_le_ediv (by decide) h.le
  rcases hseconds.lt_or_eq with hsecond | hsecond
  · refine lt_append (secondChars_lt hsecond hlow hhigh) ?_ _ _
    rw [length_secondChars hlow, length_secondChars hlow']
  · have hfraction : ¬ CutNat 6 (x % 1000000).toNat (y % 1000000).toNat := fun h => hcut (isCutOf_iff.2 ⟨hsecond, h⟩)
    rw [hsecond]
    exact List.append_left_lt ((fractionChars_order (by omega) (by omega)).2 hfraction)

/-- a point in time cut off stands behind the whole one -/
theorem timestampChars_lt_of_cut {x y : Int} (h : x < y) (hcut : IsCutOf x y) : timestampChars y < timestampChars x := by
  obtain ⟨hsecond, hcut⟩ := isCutOf_iff.1 hcut
  rw [timestampChars_eq, timestampChars_eq, hsecond]
  exact List.append_left_lt ((fractionChars_order (by omega) (by omega)).1 hcut)

/-! ## Texts -/

/-- the texts of these days stand the other way round -/
def ReversedDays (x y : Int) : Prop :=
  (Date.ofDays x).Reversed (Date.ofDays y)

/-- the texts of these points in time stand the other way round -/
def ReversedTimes (x y : Int) : Prop :=
  IsCutOf x y ∨ IsCutOf y x

instance (x y : Int) : Decidable (ReversedDays x y) :=
  inferInstanceAs (Decidable (_ < _ ∧ _ < _ ∧ _ ≠ _))

instance (x y : Int) : Decidable (ReversedTimes x y) :=
  inferInstanceAs (Decidable (IsCutOf x y ∨ IsCutOf y x))

theorem reversedDays_comm {x y : Int} : ReversedDays x y ↔ ReversedDays y x := by
  unfold ReversedDays Date.Reversed
  tauto

theorem reversedTimes_comm {x y : Int} : ReversedTimes x y ↔ ReversedTimes y x := Or.comm

theorem formatDate_eq_some {days : Int32} {text : String} (h : formatDate days = some text) :
    (Date.ofDays days.toInt).InText ∧ text.toList = (Date.ofDays days.toInt).chars := by
  simp only [formatDate, Option.ite_none_right_eq_some, Option.some.injEq] at h
  obtain ⟨hyear, rfl⟩ := h
  exact ⟨hyear, String.toList_ofList⟩

theorem formatTimestamp_eq_some {micros : Int64} {text : String} (h : formatTimestamp micros = some text) :
    InText micros.toInt ∧ text.toList = timestampChars micros.toInt := by
  simp only [formatTimestamp, Option.ite_none_right_eq_some, Option.some.injEq] at h
  obtain ⟨hyear, rfl⟩ := h
  exact ⟨hyear, String.toList_ofList⟩

/-- cutting never makes a time later -/
theorem IsCutOf.le {x y : Int} (h : IsCutOf x y) : x ≤ y := by
  obtain ⟨k, _, rfl⟩ := h
  exact Int.ediv_mul_le y (by positivity)

/-- the texts of two days, the earlier one first unless they are reversed -/
theorem formatDate_lt {x y : Int32} {s t : String} (hs : formatDate x = some s) (ht : formatDate y = some t)
    (h : x.toInt < y.toInt) : if ReversedDays x.toInt y.toInt then t < s else s < t := by
  obtain ⟨hx, hs⟩ := formatDate_eq_some hs
  obtain ⟨hy, ht⟩ := formatDate_eq_some ht
  rw [String.lt_iff, String.lt_iff, hs, ht]
  have hbefore := Date.ofDays_before h
  split_ifs with hrev
  · exact Date.chars_lt_of_reversed hbefore hrev hx
  · exact Date.chars_lt hbefore hrev hx hy (Date.real_ofDays _)

/-- the texts of two points in time, the earlier one first unless they are reversed -/
theorem formatTimestamp_lt {x y : Int64} {s t : String} (hs : formatTimestamp x = some s)
    (ht : formatTimestamp y = some t) (h : x.toInt < y.toInt) :
    if ReversedTimes x.toInt y.toInt then t < s else s < t := by
  obtain ⟨hx, hs⟩ := formatTimestamp_eq_some hs
  obtain ⟨hy, ht⟩ := formatTimestamp_eq_some ht
  rw [String.lt_iff, String.lt_iff, hs, ht]
  split_ifs with hrev
  · rcases hrev with hcut | hcut
    · exact timestampChars_lt_of_cut h hcut
    · exact absurd hcut.le (not_le.2 h)
  · exact timestampChars_lt h (fun hcut => hrev (Or.inl hcut)) hx hy

end PartitionedScan.Calendar
