/-
Every float is read as it was written.

What is printed is a decimal that is rounded to the float: `shortest` looks for one with few digits and falls back on the
exact value, and cutting trailing zeros leaves the number as it is (`magnitudeOf_shortest`). The digits are laid out with a
point in one of three ways, or with an exponent, and a reader of the text has the same number again, though not always the
same coefficient and exponent: in front of a missing fraction stands a zero that counts. Reading rounds that number, and
rounding knows the number only (`ofDecimal_eq`).
Main results:
- `Binary64.ofDecimal_eq`: a decimal is rounded as the number that it is;
- `Json.Number.readsBack`: every number of a document is read back from its text.
-/
import PartitionedScan.Proofs.Decimal.Rounding
import PartitionedScan.Proofs.Json.RoundTrip

namespace PartitionedScan

/-! ## Decimals -/

namespace Text.Integer

theorem pow_length_bounds {n : Nat} (h : 0 < n) :
    10 ^ ((Nat.toDigits 10 n).length - 1) ≤ n ∧ n < 10 ^ (Nat.toDigits 10 n).length := by
  have hlength : 0 < (Nat.toDigits 10 n).length := List.length_pos_iff.2 Nat.toDigits_ne_nil
  constructor
  · by_contra hlt
    rcases Nat.eq_zero_or_pos ((Nat.toDigits 10 n).length - 1) with hone | hmore
    · rw [hone] at hlt
      omega
    · have hle := (Nat.length_toDigits_le_iff (by decide) hmore).2 (not_le.1 hlt)
      omega
  · exact (Nat.length_toDigits_le_iff (by decide) hlength).1 le_rfl

end Text.Integer

namespace Binary64

theorem pow_large : (2 : ℚ) ^ (1024 : ℤ) ≤ 10 ^ (310 : ℤ) := by
  calc (2 : ℚ) ^ (1024 : ℤ) ≤ ((2 : ℚ) ^ (205 : ℤ)) ^ (5 : ℤ) := by
        rw [← zpow_mul]
        exact zpow_le_zpow_right₀ one_le_two (by norm_num)
    _ ≤ ((10 : ℚ) ^ (62 : ℤ)) ^ (5 : ℤ) := zpow_le_zpow_left₀ (by norm_num) (by positivity) (by norm_num)
    _ = 10 ^ (310 : ℤ) := by rw [← zpow_mul]; norm_num

theorem pow_small : (10 : ℚ) ^ (-331 : ℤ) ≤ 2 ^ (-1075 : ℤ) := by
  rw [zpow_neg, zpow_neg]
  apply inv_anti₀ (by positivity)
  calc (2 : ℚ) ^ (1075 : ℤ) = ((2 : ℚ) ^ (215 : ℤ)) ^ (5 : ℤ) := by rw [← zpow_mul]; norm_num
    _ ≤ ((10 : ℚ) ^ (66 : ℤ)) ^ (5 : ℤ) := zpow_le_zpow_left₀ (by norm_num) (by positivity) (by norm_num)
    _ ≤ 10 ^ (331 : ℤ) := by
        rw [← zpow_mul]
        exact zpow_le_zpow_right₀ (by norm_num) (by norm_num)

theorem decimal_bounds {c : Nat} (hc : 0 < c) (e : Int) :
    (10 : ℚ) ^ (e + (Nat.toDigits 10 c).length - 1) ≤ c * 10 ^ e ∧ (c : ℚ) * 10 ^ e < 10 ^ (e + (Nat.toDigits 10 c).length) := by
  obtain ⟨hlow, hhigh⟩ := Text.Integer.pow_length_bounds hc
  have hlength : 0 < (Nat.toDigits 10 c).length := List.length_pos_iff.2 Nat.toDigits_ne_nil
  constructor
  · have hexponent : e + ((Nat.toDigits 10 c).length : Int) - 1 = ((Nat.toDigits 10 c).length - 1 : ℕ) + e := by omega
    rw [hexponent, zpow_add₀ (by norm_num), zpow_natCast]
    exact mul_le_mul_of_nonneg_right (by exact_mod_cast hlow) (by positivity)
  · rw [add_comm e, zpow_add₀ (by norm_num), zpow_natCast]
    exact mul_lt_mul_of_pos_right (by exact_mod_cast hhigh) (by positivity)

/-- **A decimal is rounded as the number that it is** -/
theorem ofDecimal_eq (negative : Bool) (c : Nat) (e : Int) :
    ofDecimal negative c e = ofMagnitude negative (magnitudeOf (c * 10 ^ e)) := by
  have hten : (10 : ℚ) ≠ 0 := by norm_num
  rw [ofDecimal]
  split_ifs with hzero hlarge hsmall hneg
  · rw [hzero, Nat.cast_zero, zero_mul, magnitudeOf_zero]
  · obtain ⟨hlow, _⟩ := decimal_bounds (Nat.pos_of_ne_zero hzero) e
    have hpow : (10 : ℚ) ^ (310 : ℤ) ≤ 10 ^ (e + (Nat.toDigits 10 c).length - 1) :=
      zpow_le_zpow_right₀ (by norm_num) (by omega)
    rw [magnitudeOf_large (pow_large.trans (hpow.trans hlow)), infinity]
  · obtain ⟨_, hhigh⟩ := decimal_bounds (Nat.pos_of_ne_zero hzero) e
    have hpos : (0 : ℚ) < c * 10 ^ e := mul_pos (Nat.cast_pos.2 (Nat.pos_of_ne_zero hzero)) (by positivity)
    have hpow : (10 : ℚ) ^ (e + (Nat.toDigits 10 c).length) ≤ 10 ^ (-331 : ℤ) :=
      zpow_le_zpow_right₀ (by norm_num) (by omega)
    rw [magnitudeOf_small (lt_of_lt_of_le hhigh (hpow.trans pow_small)) hpos]
  · have he : (10 : ℚ) ^ e = ((10 ^ e.natAbs : ℕ) : ℚ)⁻¹ := by
      rw [Nat.cast_pow, Nat.cast_ofNat, ← zpow_natCast, ← zpow_neg]
      congr 1
      omega
    rw [Nat.pow_eq, ofRatio_eq _ _ (Nat.pow_pos (by decide)), he, div_eq_mul_inv]
  · have he : (10 : ℚ) ^ e = (10 ^ e.natAbs : ℕ) := by
      rw [Nat.cast_pow, Nat.cast_ofNat, ← zpow_natCast]
      congr 1
      omega
    rw [Nat.pow_eq, ofRatio_eq _ _ one_pos, he, Nat.cast_one, div_one, Nat.cast_mul]

end Binary64

namespace Decimal

/-- the number that a decimal is -/
def toRat (d : Decimal) : ℚ := d.coefficient * 10 ^ d.exponent

theorem toRat_stripZeros (fuel : Nat) (d : Decimal) : (stripZeros fuel d).toRat = d.toRat := by
  induction fuel generalizing d with
  | zero => rfl
  | succ fuel ih =>
    rw [stripZeros]
    split_ifs with h
    · have hten : (d.coefficient : ℚ) = (d.coefficient / 10 : ℕ) * 10 := by
        exact_mod_cast (Nat.div_mul_cancel (Nat.dvd_of_mod_eq_zero h.2)).symm
      rw [ih, toRat, toRat, hten, zpow_add₀ (by norm_num), zpow_one]
      ring
    · rfl

variable {x : Binary64}

theorem readsBack_iff {d : Decimal} : readsBack x d = true ↔ Binary64.magnitudeOf d.toRat = x.magnitude := by
  rw [readsBack, Binary64.ofDecimal_eq, Binary64.magnitude_ofMagnitude _ (Binary64.magnitudeOf_le_infinite _), beq_iff_eq,
    toRat]

/-- the exact decimal is the number that the float stands for -/
theorem toRat_exact (x : Binary64) : (exact x).toRat = x.absValue := by
  rw [exact, Binary64.absValue]
  split_ifs with hneg
  · have he : (2 : ℚ) ^ x.exponent = 5 ^ x.exponent.natAbs * 10 ^ x.exponent := by
      have hsame : x.exponent = -(x.exponent.natAbs : ℤ) := by omega
      rw [hsame, Int.natAbs_neg, Int.natAbs_natCast, show (10 : ℚ) = 5 * 2 by norm_num, mul_zpow, zpow_neg, zpow_neg,
        zpow_natCast, zpow_natCast, ← mul_assoc, mul_inv_cancel₀ (by positivity), one_mul]
    rw [toRat, he, Nat.pow_eq, Nat.cast_mul, Nat.cast_pow, Nat.cast_ofNat, mul_assoc]
  · have he : (2 : ℚ) ^ x.exponent = 2 ^ x.exponent.natAbs := by
      rw [← zpow_natCast]
      congr 1
      omega
    rw [toRat, he, zpow_zero, mul_one, Nat.pow_eq, Nat.cast_mul, Nat.cast_pow, Nat.cast_ofNat]

theorem readsBack_of_nearest? {digits : Nat} {d : Decimal} (h : nearest? x digits = some d) : readsBack x d = true := by
  unfold nearest? at h
  exact List.find?_some h

/-- **The printed decimal is rounded to the float** -/
theorem magnitudeOf_shortest (h : x.isFinite = true) : Binary64.magnitudeOf (shortest x).toRat = x.magnitude := by
  rw [shortest]
  split_ifs with hzero
  · rw [toRat, Nat.cast_zero, zero_mul, Binary64.magnitudeOf_zero, eq_of_beq hzero]
  · rw [toRat_stripZeros]
    cases hfound : (List.range 17).findSome? fun i => nearest? x (i + 1) with
    | none => rw [Option.getD_none, toRat_exact, Binary64.magnitudeOf_absValue h]
    | some d =>
      obtain ⟨i, _, hd⟩ := List.exists_of_findSome?_eq_some hfound
      exact readsBack_iff.1 (readsBack_of_nearest? hd)

theorem coefficient_ne_zero (h : x.isFinite = true) (hx : x.isZero = false) : (shortest x).coefficient ≠ 0 := by
  intro hzero
  have hmagnitude := magnitudeOf_shortest h
  rw [toRat, hzero, Nat.cast_zero, zero_mul, Binary64.magnitudeOf_zero] at hmagnitude
  rw [Binary64.isZero, ← hmagnitude] at hx
  cases hx

end Decimal

/-! ## Texts -/

namespace Json.Numeral

variable {whole places rest rest' : List Char} {fraction : Option (List Char)} {exponent : Option Int}

/-- the rest does not go on with a digit -/
def Stops (rest : List Char) : Prop := ∀ c r, rest = c :: r → c.isDigit = false

theorem stops_nil : Stops [] := fun _ _ h => by cases h

theorem stops_cons {c : Char} (h : c.isDigit = false) (r : List Char) : Stops (c :: r) := fun _ _ heq => by
  cases heq
  exact h

theorem spanDigits_of_stops {digits : List Char} (h : ∀ c ∈ digits, c.isDigit = true) (hrest : Stops rest) :
    spanDigits (digits ++ rest) = (digits, rest) := by
  induction digits with
  | nil =>
    cases rest with
    | nil => rfl
    | cons c r => rw [List.nil_append, spanDigits_cons, hrest c r rfl, if_neg Bool.false_ne_true]
  | cons c digits ih =>
    rw [List.forall_mem_cons] at h
    rw [List.cons_append, spanDigits_cons, if_pos h.1, ih h.2]

theorem scanFraction?_places (h : ∀ c ∈ places, c.isDigit = true) (hne : places ≠ []) (hrest : Stops rest) :
    scanFraction? ('.' :: (places ++ rest)) = some (some places, rest) := by
  have hempty : places.isEmpty = false := List.isEmpty_eq_false_iff.2 hne
  simp only [scanFraction?, spanDigits_of_stops h hrest, hempty, Bool.false_eq_true, if_false]

theorem splitSign_digits {digits : List Char} (h : ∀ c ∈ digits, c.isDigit = true) :
    Binary64.splitSign digits = (false, digits) := by
  rw [Binary64.splitSign.eq_def]
  split
  · exact absurd (h '+' List.mem_cons_self) (by decide)
  · exact absurd (h '-' List.mem_cons_self) (by decide)
  · rfl

theorem scanExponent?_ofInt (plus : Bool) (e : Int) :
    scanExponent? ('e' :: ((if plus && 0 ≤ e then ['+'] else []) ++ Text.Integer.ofInt e)) = some (some e, []) := by
  have hdigits := Text.Integer.isDigit_ofNat e.natAbs
  have hne : (Text.Integer.ofNat e.natAbs).isEmpty = false := List.isEmpty_eq_false_iff.2 (Text.Integer.ofNat_ne_nil _)
  have hread (negative : Bool) : exponentOf? negative (spanDigits (Text.Integer.ofNat e.natAbs)) =
      some (some (if negative then -(e.natAbs : Int) else e.natAbs), []) := by
    rw [exponentOf?, spanDigits_of_all hdigits, hne, if_neg Bool.false_ne_true, Text.Integer.value_ofNat]
  rw [scanExponent?_of_mark (.inl rfl), Text.Integer.ofInt]
  by_cases hneg : e < 0
  · have hsign : (plus && decide (0 ≤ e)) = false := by simp [hneg]
    have hminus : Binary64.splitSign ('-' :: Text.Integer.ofNat e.natAbs) = (true, Text.Integer.ofNat e.natAbs) := rfl
    rw [if_pos hneg, hsign, if_neg Bool.false_ne_true, List.nil_append, hminus, hread, if_pos rfl]
    rw [show -(e.natAbs : Int) = e by omega]
  · have hsplit : Binary64.splitSign ((if plus && decide (0 ≤ e) then ['+'] else []) ++ Text.Integer.ofNat e.natAbs) =
        (false, Text.Integer.ofNat e.natAbs) := by
      split_ifs
      · rfl
      · exact splitSign_digits hdigits
    rw [if_neg hneg, hsplit, hread, if_neg Bool.false_ne_true]
    rw [show (e.natAbs : Int) = e by omega]

/-- a number with a first run of digits, and what is read after it -/
theorem scanUnsigned?_of_parts (negative : Bool) (hdigits : ∀ c ∈ whole, c.isDigit = true) (hne : whole ≠ [])
    (hlead : whole.length ≤ 1 ∨ whole.head? ≠ some '0') (hstops : Stops rest)
    (hfraction : scanFraction? rest = some (fraction, rest')) (hexponent : scanExponent? rest' = some (exponent, [])) :
    scanUnsigned? negative (whole ++ rest) = some (⟨negative, Text.Integer.value (whole ++ fraction.getD []),
      exponent.getD 0 - (fraction.getD []).length, fraction.isNone && exponent.isNone⟩, []) := by
  have hempty : whole.isEmpty = false := List.isEmpty_eq_false_iff.2 hne
  have hzero : (decide (1 < whole.length) && whole.head? == some '0') = false := by
    rcases hlead with hshort | hhead
    · simp [Nat.not_lt.2 hshort]
    · simp [hhead]
  unfold scanUnsigned?
  rw [spanDigits_of_stops hdigits hstops]
  simp only [hempty, hzero, Bool.or_self, Bool.false_eq_true, if_false, hfraction, Option.bind_some, hexponent]

end Json.Numeral

namespace FloatStyle

open Json

/-- the digits are read as a decimal with the value of a number, and not as a whole number -/
def Denotes (cs : List Char) (q : ℚ) : Prop :=
  ∀ negative, ∃ c e, Numeral.scanUnsigned? negative cs = some (⟨negative, c, e, false⟩, []) ∧ (c : ℚ) * 10 ^ e = q

variable {digits : List Char}

theorem value_append_zeros (cs : List Char) (n : Nat) :
    Text.Integer.value (cs ++ List.replicate n '0') = Text.Integer.value cs * 10 ^ n := by
  rw [Text.Integer.value, Nat.ofDigitChars_append, Nat.ofDigitChars_replicate_zero, Nat.mul_comm, Text.Integer.value]

/-- a whole part, a point and places -/
theorem denotes_point {w p : List Char} (hwhole : ∀ c ∈ w, c.isDigit = true) (hne : w ≠ [])
    (hlead : w.length ≤ 1 ∨ w.head? ≠ some '0') (hplaces : ∀ c ∈ p, c.isDigit = true) (hsome : p ≠ []) :
    Denotes (w ++ '.' :: p) (Text.Integer.value (w ++ p) * 10 ^ (-(p.length : ℤ))) := by
  intro negative
  have hfraction := Numeral.scanFraction?_places hplaces hsome Numeral.stops_nil
  rw [List.append_nil] at hfraction
  have hscan := Numeral.scanUnsigned?_of_parts negative hwhole hne hlead (Numeral.stops_cons rfl p) hfraction rfl
  refine ⟨_, _, hscan, ?_⟩
  rw [Option.getD_some, Option.getD_none, zero_sub]

section

variable {before : Int}

/-- digits with a point in front of them, and zeros between -/
theorem denotes_places (hdigits : ∀ c ∈ digits, c.isDigit = true) (hne : digits ≠ []) (hbefore : before ≤ 0) :
    Denotes (positional digits before) (Text.Integer.value digits * 10 ^ (before - digits.length)) := by
  have hplaces : ∀ c ∈ List.replicate before.natAbs '0' ++ digits, c.isDigit = true :=
    List.forall_mem_append.2 ⟨Text.Integer.isDigit_zeros _, hdigits⟩
  have hpoint := denotes_point (w := ['0']) (Text.Integer.isDigit_zeros 1) (by simp) (.inl le_rfl) hplaces (by simp [hne])
  rw [show ['0'] ++ (List.replicate before.natAbs '0' ++ digits) = List.replicate (before.natAbs + 1) '0' ++ digits from
    rfl, Text.Integer.value_zeros_append] at hpoint
  rw [positional, if_pos hbefore, show before - (digits.length : ℤ) =
    -((List.replicate before.natAbs '0' ++ digits).length : ℤ) by
      rw [List.length_append, List.length_replicate]
      omega]
  exact hpoint

/-- digits with a point among them -/
theorem denotes_split (hdigits : ∀ c ∈ digits, c.isDigit = true) (hhead : digits.head? ≠ some '0') (hbefore : 0 < before)
    (hshort : before.toNat < digits.length) :
    Denotes (positional digits before) (Text.Integer.value digits * 10 ^ (before - digits.length)) := by
  have hnone : before.toNat - digits.length = 0 := by omega
  have hrest : digits.drop before.toNat ≠ [] := by
    rw [ne_eq, List.drop_eq_nil_iff]
    omega
  have hwhole : digits.take before.toNat ≠ [] := by
    rw [ne_eq, List.take_eq_nil_iff, not_or]
    exact ⟨by omega, fun h => hrest (by rw [h, List.drop_nil])⟩
  have htake : (digits.take before.toNat).head? ≠ some '0' := by
    rw [List.head?_take, if_neg (by omega)]
    exact hhead
  have hpoint := denotes_point (w := digits.take before.toNat) (p := digits.drop before.toNat)
    (fun c hc => hdigits c (List.mem_of_mem_take hc)) hwhole (.inr htake)
    (fun c hc => hdigits c (List.mem_of_mem_drop hc)) hrest
  rw [List.take_append_drop] at hpoint
  rw [positional, if_neg (not_le.2 hbefore)]
  simp only [hnone, List.replicate_zero, List.append_nil, List.isEmpty_eq_false_iff.2 hrest, Bool.false_eq_true, if_false]
  rw [show before - (digits.length : ℤ) = -((digits.drop before.toNat).length : ℤ) by simp; omega]
  exact hpoint

/-- digits with a point behind them, zeros between and one after it -/
theorem denotes_whole (hdigits : ∀ c ∈ digits, c.isDigit = true) (hne : digits ≠ []) (hhead : digits.head? ≠ some '0')
    (hbefore : 0 < before) (hlong : digits.length ≤ before.toNat) :
    Denotes (positional digits before) (Text.Integer.value digits * 10 ^ (before - digits.length)) := by
  have hall : digits.take before.toNat = digits := List.take_of_length_le hlong
  have hrest : digits.drop before.toNat = [] := List.drop_of_length_le hlong
  have hwhole : ∀ c ∈ digits ++ List.replicate (before.toNat - digits.length) '0', c.isDigit = true :=
    List.forall_mem_append.2 ⟨hdigits, Text.Integer.isDigit_zeros _⟩
  have hlead : (digits ++ List.replicate (before.toNat - digits.length) '0').head? ≠ some '0' := by
    rw [List.head?_append_of_ne_nil _ hne]
    exact hhead
  have hpoint := denotes_point (p := ['0']) hwhole (by simp [hne]) (.inr hlead) (Text.Integer.isDigit_zeros 1) (by simp)
  have hvalue : (Text.Integer.value (digits ++ List.replicate (before.toNat - digits.length) '0' ++ ['0']) : ℚ) *
      10 ^ (-((['0'] : List Char).length : ℤ)) = Text.Integer.value digits * 10 ^ (before - digits.length) := by
    have hzeros : List.replicate (before.toNat - digits.length) '0' ++ ['0'] =
        List.replicate (before.toNat - digits.length + 1) '0' := List.replicate_succ'.symm
    rw [List.append_assoc, hzeros, value_append_zeros, Nat.cast_mul, Nat.cast_pow, Nat.cast_ofNat, mul_assoc,
      ← zpow_natCast, ← zpow_add₀ (by norm_num)]
    congr 2
    simp only [List.length_cons, List.length_nil]
    omega
  rw [positional, if_neg (not_le.2 hbefore)]
  simp only [hall, hrest, List.isEmpty_nil, if_true]
  rw [← hvalue]
  exact hpoint

end

/-- digits with a point in front of them, among them or behind them, zeros filled in -/
theorem denotes_positional (hdigits : ∀ c ∈ digits, c.isDigit = true) (hne : digits ≠ []) (hhead : digits.head? ≠ some '0')
    (before : Int) :
    Denotes (positional digits before) (Text.Integer.value digits * 10 ^ (before - digits.length)) := by
  rcases le_or_gt before 0 with hbefore | hbefore
  · exact denotes_places hdigits hne hbefore
  · rcases lt_or_ge before.toNat digits.length with hshort | hlong
    · exact denotes_split hdigits hhead hbefore hshort
    · exact denotes_whole hdigits hne hhead hbefore hlong

/-- digits with a point after the first, and an exponent -/
theorem denotes_scientific (style : FloatStyle) (hdigits : ∀ c ∈ digits, c.isDigit = true) (hne : digits ≠ []) (e : Int) :
    Denotes (scientific style digits e) (Text.Integer.value digits * 10 ^ (e + 1 - digits.length)) := by
  have hexponent := Numeral.scanExponent?_ofInt style.plusSign e
  intro negative
  unfold scientific
  rcases digits with _ | ⟨d, _ | ⟨c, r⟩⟩
  · exact absurd rfl hne
  · have hscan := Numeral.scanUnsigned?_of_parts negative hdigits (by simp) (.inl (by simp)) (Numeral.stops_cons rfl _)
      (Numeral.scanFraction?_of_ne (by decide) _) hexponent
    refine ⟨_, _, hscan, ?_⟩
    simp
  · rw [List.forall_mem_cons] at hdigits
    have hstops : Numeral.Stops ('e' :: ((if style.plusSign && 0 ≤ e then ['+'] else []) ++ Text.Integer.ofInt e)) :=
      Numeral.stops_cons rfl _
    have hfraction := Numeral.scanFraction?_places hdigits.2 (List.cons_ne_nil c r) hstops
    have hfirst : ∀ a ∈ [d], a.isDigit = true := by simpa using hdigits.1
    have hscan := Numeral.scanUnsigned?_of_parts negative hfirst (by simp) (.inl (by simp)) (Numeral.stops_cons rfl _)
      hfraction hexponent
    refine ⟨_, _, hscan, ?_⟩
    rw [Option.getD_some, Option.getD_some, List.singleton_append]
    congr 2
    simp only [List.length_cons]
    omega

/-- **The text of a float is read as the decimal that was found for it** -/
theorem denotes_writeMagnitude (style : FloatStyle) {x : Binary64} (h : x.isFinite = true) :
    Denotes (writeMagnitude style x) (Decimal.shortest x).toRat := by
  have hdigits := Text.Integer.isDigit_ofNat (Decimal.shortest x).coefficient
  unfold writeMagnitude
  dsimp only
  split_ifs with hzero hpositional
  · intro negative
    refine ⟨0, -1, rfl, ?_⟩
    rw [Decimal.shortest, if_pos hzero, Decimal.toRat]
    simp
  · have hhead := Number.head?_toDigits_ne _ (Decimal.coefficient_ne_zero h (Bool.eq_false_of_not_eq_true hzero))
    have hpoint := denotes_positional hdigits (Text.Integer.ofNat_ne_nil _) hhead
      ((Decimal.shortest x).exponent + (Text.Integer.ofNat (Decimal.shortest x).coefficient).length - 1 + 1)
    rw [Text.Integer.value_ofNat, show ∀ n : ℕ, (Decimal.shortest x).exponent + (n : ℤ) - 1 + 1 - n = (Decimal.shortest x).exponent by
      intro n; omega] at hpoint
    exact hpoint
  · have hmark := denotes_scientific style hdigits (Text.Integer.ofNat_ne_nil _)
      ((Decimal.shortest x).exponent + (Text.Integer.ofNat (Decimal.shortest x).coefficient).length - 1)
    rw [Text.Integer.value_ofNat, show ∀ n : ℕ, (Decimal.shortest x).exponent + (n : ℤ) - 1 + 1 - n = (Decimal.shortest x).exponent by
      intro n; omega] at hmark
    exact hmark

end FloatStyle

namespace Json

namespace Number

theorem readsBack_float (x : Binary64) (finite : x.isFinite = true) : (float x finite).ReadsBack := by
  obtain ⟨c, e, hscan, hvalue⟩ := FloatStyle.denotes_writeMagnitude .json finite x.isNegative
  have hfloat : Binary64.ofDecimal x.isNegative c e = x := by
    rw [Binary64.ofDecimal_eq, hvalue, Decimal.magnitudeOf_shortest finite, Binary64.ofMagnitude_magnitude]
  have hnumber : Numeral.number? ⟨x.isNegative, c, e, false⟩ = some (float x finite) := by
    unfold Numeral.number?
    simp only [hfloat]
    rw [dif_neg (by simp), dif_pos finite]
  have hchars : Numeral.scan? (float x finite).chars = some (⟨x.isNegative, c, e, false⟩, []) := by
    rw [chars, FloatStyle.write]
    cases hsign : x.isNegative with
    | true =>
      rw [hsign] at hscan
      exact hscan
    | false =>
      rw [hsign] at hscan
      rw [if_neg Bool.false_ne_true, List.nil_append]
      cases htext : FloatStyle.writeMagnitude .json x with
      | nil =>
        rw [htext] at hscan
        cases hscan
      | cons first rest =>
        rw [htext] at hscan
        have hminus : first ≠ '-' := by
          rintro rfl
          have hspan : Numeral.spanDigits ('-' :: rest) = ([], '-' :: rest) := by
            rw [Numeral.spanDigits_cons, if_neg (by decide)]
          rw [Numeral.scanUnsigned?, hspan] at hscan
          cases hscan
        rw [Numeral.scan?_of_ne hminus, hscan]
  rw [ReadsBack, ofChars?, hchars]
  exact hnumber

/-- **Every number is read back from its text** -/
theorem readsBack (n : Number) : n.ReadsBack := by
  cases n with
  | int value bounded => exact readsBack_int value bounded
  | float x finite => exact readsBack_float x finite

end Number

theorem floatsReadBack (j : Json) : j.FloatsReadBack := fun n _ _ => n.readsBack

theorem render_injective : Function.Injective render := by
  intro j k h
  have hj := Tree.json?_render (floatsReadBack j)
  rw [h, Tree.json?_render (floatsReadBack k)] at hj
  exact (Option.some.inj hj).symm

end Json

end PartitionedScan
