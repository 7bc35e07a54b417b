/-
Rounding as a function of the number that is rounded.

`ofRatio` and `ofDecimal` start from a fraction or from a coefficient and a power of ten. What they give depends on the
number alone: on a grid of steps `2^gridOf q` a positive number `q` is taken to the nearest point, a tie going to the even
one, and the points are counted off by the magnitude bits (`magnitudeOf`). Everything else here is about that function:
a number that a finite pattern stands for is a point of its grid, so it is not moved.
Main results:
- `ofRatio_eq`, `ofInt_eq`: a fraction and a whole number are rounded as the number that they are;
- `magnitudeOf_absValue`: a finite float is the rounding of its own value;
- `isFinite_ofInt`: a whole number that 64 bits hold is rounded to a finite float;
- `order?_eq_iff`: finite floats compare equal exactly when they stand for one number;
- `toRat_ofInt_eq_iff`: no other whole number is rounded to one below `2^53`.
-/
import Mathlib.Tactic
import Mathlib.Algebra.Order.Floor.Semifield
import Mathlib.Data.Int.Log
import Mathlib.Data.Rat.Floor
import PartitionedScan.Decimal.Binary64
import PartitionedScan.Json.Basic

namespace PartitionedScan.Binary64

/-! ## The nearest point of a grid -/

/-- the whole number nearest to a fraction, a tie going to the even one -/
def nearestEven (q : ℚ) : ℕ :=
  if q - ⌊q⌋₊ < 1 / 2 then ⌊q⌋₊ else if 1 / 2 < q - ⌊q⌋₊ then ⌊q⌋₊ + 1 else ⌊q⌋₊ + ⌊q⌋₊ % 2

/-- the exponent of the grid that a positive number is rounded to: 53 bits, fewer near zero -/
def gridOf (q : ℚ) : ℤ := max (-1074) (Int.log 2 q - 52)

/-- the magnitude bits nearest to a number -/
def magnitudeOf (q : ℚ) : ℕ :=
  if q = 0 then 0
  else min infiniteMagnitude ((gridOf q + 1074).toNat * fractionCount + nearestEven (q / 2 ^ gridOf q))

@[simp] theorem magnitudeOf_zero : magnitudeOf 0 = 0 := if_pos rfl

theorem fractionCount_eq : fractionCount = 2 ^ 52 := by norm_num [fractionCount]

@[simp] theorem nearestEven_natCast (n : ℕ) : nearestEven n = n := by
  rw [nearestEven, Nat.floor_natCast, sub_self, if_pos (by norm_num)]

/-- rounding goes up by no more than one step -/
theorem nearestEven_le {q : ℚ} {n : ℕ} (h : q < n) : nearestEven q ≤ n := by
  have hfloor : ⌊q⌋₊ < n ∨ q < 0 := by
    by_cases hq : 0 ≤ q
    · exact .inl ((Nat.floor_lt hq).2 h)
    · exact .inr (lt_of_not_ge hq)
  rw [nearestEven]
  rcases hfloor with hfloor | hneg
  · split_ifs <;> omega
  · have hzero : ⌊q⌋₊ = 0 := Nat.floor_of_nonpos hneg.le
    rw [hzero, Nat.cast_zero, sub_zero, if_pos (by linarith)]
    exact Nat.zero_le n

/-- rounding never goes below a whole number -/
theorem le_nearestEven {q : ℚ} {n : ℕ} (h : (n : ℚ) ≤ q) : n ≤ nearestEven q := by
  have hfloor : n ≤ ⌊q⌋₊ := Nat.le_floor h
  rw [nearestEven]
  split_ifs <;> omega

/-! ## Fractions -/

theorem roundDiv_eq (num : ℕ) {den : ℕ} (hden : 0 < den) : roundDiv num den = nearestEven (num / den) := by
  have hpos : (0 : ℚ) < den := Nat.cast_pos.2 hden
  have hfloor : ⌊(num : ℚ) / den⌋₊ = num / den := Nat.floor_div_eq_div num den
  have hrest : (num : ℚ) / den - (num / den : ℕ) = (num % den : ℕ) / den := by
    rw [div_sub' hpos.ne', div_left_inj' hpos.ne', sub_eq_iff_eq_add]
    exact_mod_cast (Nat.mod_add_div num den).symm
  have hless : (num : ℚ) / den - (num / den : ℕ) < 1 / 2 ↔ 2 * (num % den) < den := by
    rw [hrest, div_lt_div_iff₀ hpos two_pos, one_mul, mul_comm]
    exact_mod_cast Iff.rfl
  have hmore : 1 / 2 < (num : ℚ) / den - (num / den : ℕ) ↔ den < 2 * (num % den) := by
    rw [hrest, div_lt_div_iff₀ two_pos hpos, one_mul, mul_comm _ (2 : ℚ)]
    exact_mod_cast Iff.rfl
  simp only [roundDiv, nearestEven, hfloor, hless, hmore]

theorem scaled_pos (num : ℕ) {den : ℕ} (hden : 0 < den) (e : ℤ) : 0 < (scaled num den e).2 := by
  rw [scaled]
  split_ifs
  · exact hden
  · exact Nat.mul_pos hden (Nat.pow_pos two_pos)

theorem scaled_ratio (num den : ℕ) (e : ℤ) :
    ((scaled num den e).1 : ℚ) / (scaled num den e).2 = num / den / 2 ^ e := by
  rw [scaled]
  split_ifs with h
  · have he : (2 : ℚ) ^ e = ((2 : ℚ) ^ e.natAbs)⁻¹ := by
      rw [← zpow_natCast, ← zpow_neg]
      congr 1
      omega
    simp only [Nat.pow_eq, Nat.cast_mul, Nat.cast_pow, Nat.cast_ofNat]
    rw [he, div_inv_eq_mul, mul_div_right_comm]
  · have he : (2 : ℚ) ^ e = (2 : ℚ) ^ e.natAbs := by
      rw [← zpow_natCast]
      congr 1
      omega
    simp only [Nat.pow_eq, Nat.cast_mul, Nat.cast_pow, Nat.cast_ofNat]
    rw [he, div_div]

/-- the power of two below a fraction, up to one, from those of its parts -/
theorem log_ratio {num den : ℕ} (hnum : 0 < num) (hden : 0 < den) :
    (num.log2 : ℤ) - den.log2 - 1 ≤ Int.log 2 ((num : ℚ) / den) ∧ Int.log 2 ((num : ℚ) / den) < num.log2 - den.log2 + 1 := by
  have hpos : (0 : ℚ) < num / den := by positivity
  have hnumLow : (2 : ℚ) ^ num.log2 ≤ num := by exact_mod_cast Nat.log2_self_le hnum.ne'
  have hnumHigh : (num : ℚ) < 2 ^ (num.log2 + 1) := by exact_mod_cast Nat.lt_log2_self
  have hdenLow : (2 : ℚ) ^ den.log2 ≤ den := by exact_mod_cast Nat.log2_self_le hden.ne'
  have hdenHigh : (den : ℚ) < 2 ^ (den.log2 + 1) := by exact_mod_cast Nat.lt_log2_self
  constructor
  · apply (Int.zpow_le_iff_le_log one_lt_two hpos).1
    calc ((2 : ℕ) : ℚ) ^ ((num.log2 : ℤ) - den.log2 - 1)
        = 2 ^ num.log2 / 2 ^ (den.log2 + 1) := by
          rw [Nat.cast_ofNat, ← zpow_natCast, ← zpow_natCast, ← zpow_sub₀ two_ne_zero]
          congr 1
          push_cast
          ring
      _ ≤ num / den := div_le_div₀ (Nat.cast_nonneg _) hnumLow (Nat.cast_pos.2 hden) hdenHigh.le
  · apply (Int.lt_zpow_iff_log_lt one_lt_two hpos).1
    calc (num : ℚ) / den < 2 ^ (num.log2 + 1) / 2 ^ den.log2 :=
          div_lt_div₀ hnumHigh hdenLow (by positivity) (by positivity)
      _ = ((2 : ℕ) : ℚ) ^ ((num.log2 : ℤ) - den.log2 + 1) := by
          rw [Nat.cast_ofNat, ← zpow_natCast, ← zpow_natCast, ← zpow_sub₀ two_ne_zero]
          congr 1
          push_cast
          ring

/-- whether a fraction has 53 bits at most on a grid, by its power of two -/
theorem scaled_lt_iff {num den : ℕ} (hnum : 0 < num) (hden : 0 < den) (e : ℤ) :
    (scaled num den e).1 < (scaled num den e).2 * (2 * fractionCount) ↔ Int.log 2 ((num : ℚ) / den) < e + 53 := by
  have hpos : (0 : ℚ) < num / den := by positivity
  have hd : (0 : ℚ) < (scaled num den e).2 := Nat.cast_pos.2 (scaled_pos num hden e)
  have hcount : (2 : ℚ) ^ (53 : ℤ) = (2 * fractionCount : ℕ) := by norm_num [fractionCount]
  rw [← Int.lt_zpow_iff_log_lt one_lt_two hpos, Nat.cast_ofNat, zpow_add₀ two_ne_zero, ← div_lt_iff₀' (by positivity),
    ← scaled_ratio, div_lt_iff₀' hd, hcount, ← Nat.cast_mul, Nat.cast_lt]

theorem gridExponent_eq {num den : ℕ} (hnum : 0 < num) (hden : 0 < den) :
    gridExponent num den = gridOf (num / den) := by
  obtain ⟨hlow, hhigh⟩ := log_ratio hnum hden
  unfold gridExponent gridOf
  simp only [scaled_lt_iff hnum hden]
  split_ifs <;> omega

theorem roundedMagnitude_of_pos {num den n d : ℕ} {e : ℤ} (hnum : 0 < num) (he : gridExponent num den = e)
    (hscaled : scaled num den e = (n, d)) :
    roundedMagnitude num den = min infiniteMagnitude ((e + 1074).toNat * fractionCount + roundDiv n d) := by
  rw [roundedMagnitude, if_neg hnum.ne', he]
  dsimp only
  rw [hscaled]

theorem magnitudeOf_of_pos {q : ℚ} (hq : 0 < q) :
    magnitudeOf q = min infiniteMagnitude ((gridOf q + 1074).toNat * fractionCount + nearestEven (q / 2 ^ gridOf q)) :=
  if_neg hq.ne'

/-- **What a fraction is rounded to depends on its value alone** -/
theorem roundedMagnitude_eq (num : ℕ) {den : ℕ} (hden : 0 < den) :
    roundedMagnitude num den = magnitudeOf (num / den) := by
  rcases Nat.eq_zero_or_pos num with hzero | hnum
  · have hq : (num : ℚ) / den = 0 := by rw [hzero, Nat.cast_zero, zero_div]
    rw [hq, magnitudeOf_zero]
    exact if_pos hzero
  · have hpos : (0 : ℚ) < num / den := by positivity
    rw [roundedMagnitude_of_pos hnum (gridExponent_eq hnum hden) Prod.mk.eta.symm, roundDiv_eq _ (scaled_pos num hden _),
      scaled_ratio, magnitudeOf_of_pos hpos]

theorem ofRatio_eq (negative : Bool) (num : ℕ) {den : ℕ} (hden : 0 < den) :
    ofRatio negative num den = ofMagnitude negative (magnitudeOf (num / den)) := by
  rw [ofRatio, roundedMagnitude_eq num hden]

theorem ofInt_eq (i : ℤ) : ofInt i = ofMagnitude (i < 0) (magnitudeOf i.natAbs) := by
  rw [ofInt, ofRatio_eq _ _ one_pos, Nat.cast_one, div_one]

/-! ## Large and small numbers -/

/-- on its own grid a number past the subnormal ones has 53 bits at least -/
theorem zpow_le_of_log {q : ℚ} (hq : 0 < q) (h : -1022 ≤ Int.log 2 q) : (2 : ℚ) ^ (52 : ℤ) ≤ q / 2 ^ gridOf q := by
  have hgrid : gridOf q = Int.log 2 q - 52 := by
    rw [gridOf]
    omega
  rw [le_div_iff₀ (by positivity), ← zpow_add₀ two_ne_zero, hgrid, add_sub_cancel]
  exact_mod_cast Int.zpow_log_le_self one_lt_two hq

/-- on its own grid a number has 53 bits at most -/
theorem div_grid_lt (q : ℚ) : q / 2 ^ gridOf q < 2 ^ (53 : ℤ) := by
  rw [div_lt_iff₀ (by positivity), ← zpow_add₀ two_ne_zero]
  calc q < 2 ^ (Int.log 2 q + 1) := by exact_mod_cast Int.lt_zpow_succ_log_self one_lt_two q
    _ ≤ 2 ^ (53 + gridOf q) := zpow_le_zpow_right₀ one_le_two (by rw [gridOf]; omega)

/-- a number from a power of two on has at least the magnitude bits of that power, up to infinity -/
theorem le_magnitudeOf {q : ℚ} {k : ℕ} (h : (2 : ℚ) ^ ((k : ℤ) + 52) ≤ q) :
    min infiniteMagnitude ((k + 1075) * fractionCount) ≤ magnitudeOf q := by
  have hq : 0 < q := lt_of_lt_of_le (by positivity) h
  have hlog : (k : ℤ) + 52 ≤ Int.log 2 q := by
    apply (Int.zpow_le_iff_le_log one_lt_two hq).1
    exact_mod_cast h
  have hpoint : fractionCount ≤ nearestEven (q / 2 ^ gridOf q) := by
    apply le_nearestEven
    have hlow := zpow_le_of_log hq (by omega)
    rw [fractionCount_eq]
    exact_mod_cast hlow
  have hgrid : k + 1074 ≤ (gridOf q + 1074).toNat := by
    rw [gridOf]
    omega
  rw [magnitudeOf_of_pos hq]
  apply min_le_min_left
  calc (k + 1075) * fractionCount = (k + 1074) * fractionCount + fractionCount := by ring
    _ ≤ _ := Nat.add_le_add (Nat.mul_le_mul_right _ hgrid) hpoint

/-- a number below a power of two has at most the magnitude bits of that power -/
theorem magnitudeOf_le {q : ℚ} {k : ℕ} (hq : 0 ≤ q) (h : q < (2 : ℚ) ^ ((k : ℤ) + 53)) :
    magnitudeOf q ≤ (k + 1076) * fractionCount := by
  rw [magnitudeOf]
  split_ifs with hzero
  · exact Nat.zero_le _
  · have hpos : 0 < q := lt_of_le_of_ne hq (Ne.symm hzero)
    have hlog : Int.log 2 q < k + 53 := by
      apply (Int.lt_zpow_iff_log_lt one_lt_two hpos).1
      exact_mod_cast h
    have hgrid : (gridOf q + 1074).toNat ≤ k + 1074 := by
      rw [gridOf]
      omega
    have hpoint : nearestEven (q / 2 ^ gridOf q) ≤ 2 * fractionCount := by
      apply nearestEven_le
      have hlt := div_grid_lt q
      rw [fractionCount_eq]
      norm_num at hlt ⊢
      exact hlt
    calc min infiniteMagnitude ((gridOf q + 1074).toNat * fractionCount + nearestEven (q / 2 ^ gridOf q))
        ≤ (gridOf q + 1074).toNat * fractionCount + nearestEven (q / 2 ^ gridOf q) := min_le_right _ _
      _ ≤ (k + 1074) * fractionCount + 2 * fractionCount := Nat.add_le_add (Nat.mul_le_mul_right _ hgrid) hpoint
      _ = (k + 1076) * fractionCount := by ring

theorem magnitudeOf_le_infinite (q : ℚ) : magnitudeOf q ≤ infiniteMagnitude := by
  rw [magnitudeOf]
  split_ifs
  · exact Nat.zero_le _
  · exact min_le_left _ _

/-- a number of `2^1024` or more is rounded to infinity -/
theorem magnitudeOf_large {q : ℚ} (h : (2 : ℚ) ^ (1024 : ℤ) ≤ q) : magnitudeOf q = infiniteMagnitude := by
  have hle := le_magnitudeOf (k := 972) (q := q) h
  rw [min_eq_left (by rw [infiniteMagnitude])] at hle
  exact le_antisymm (magnitudeOf_le_infinite q) hle

/-- a number below `2^-1075` is rounded to zero -/
theorem magnitudeOf_small {q : ℚ} (h : q < (2 : ℚ) ^ (-1075 : ℤ)) (hq : 0 < q) : magnitudeOf q = 0 := by
  have hlog : Int.log 2 q < -1075 := by
    apply (Int.lt_zpow_iff_log_lt one_lt_two hq).1
    exact_mod_cast h
  have hgrid : gridOf q = -1074 := by
    rw [gridOf]
    omega
  have hhalf : q / 2 ^ (-1074 : ℤ) < 1 / 2 := by
    rw [div_lt_iff₀ (by positivity)]
    calc q < 2 ^ (-1075 : ℤ) := h
      _ = 1 / 2 * 2 ^ (-1074 : ℤ) := by
        rw [show (-1074 : ℤ) = -1075 + 1 by norm_num, zpow_add₀ two_ne_zero]
        ring
  have hfloor : ⌊q / 2 ^ (-1074 : ℤ)⌋₊ = 0 := Nat.floor_eq_zero.2 (hhalf.trans (by norm_num))
  rw [magnitudeOf_of_pos hq, hgrid, nearestEven, hfloor, Nat.cast_zero, sub_zero, if_pos hhalf]
  rfl

/-! ## Patterns -/

variable {x y : Binary64}

@[simp] theorem magnitude_ofMagnitude (negative : Bool) {m : ℕ} (h : m ≤ infiniteMagnitude) :
    (ofMagnitude negative m).magnitude = m := by
  have hm : m < signBit := lt_of_le_of_lt h (by decide)
  rw [magnitude, ofMagnitude, UInt64.toNat_ofNat']
  unfold signBit at hm ⊢
  cases negative <;> simp <;> omega

@[simp] theorem isNegative_ofMagnitude (negative : Bool) {m : ℕ} (h : m ≤ infiniteMagnitude) :
    (ofMagnitude negative m).isNegative = negative := by
  have hm : m < signBit := lt_of_le_of_lt h (by decide)
  rw [isNegative, ofMagnitude, UInt64.toNat_ofNat']
  unfold signBit at hm ⊢
  cases negative <;> simp <;> omega

/-- a pattern is its sign and its magnitude bits -/
theorem ofMagnitude_magnitude (x : Binary64) : ofMagnitude x.isNegative x.magnitude = x := by
  have hx := x.bits.toNat_lt
  refine (congrArg Binary64.mk ?_ : _ = Binary64.mk x.bits)
  apply UInt64.toNat_inj.1
  rw [UInt64.toNat_ofNat', isNegative, magnitude]
  unfold signBit
  split_ifs with h <;> simp at h <;> omega

/-- the number that a finite pattern stands for, without its sign -/
def absValue (x : Binary64) : ℚ := x.significand * 2 ^ x.exponent

/-- the number that a finite pattern stands for -/
def toRat (x : Binary64) : ℚ := if x.isNegative then -x.absValue else x.absValue

/-- a value on the grid of its exponent is counted off by its significand -/
theorem magnitudeOf_point {s : ℕ} {e : ℤ} (hs : 0 < s) (hgrid : gridOf (s * 2 ^ e) = e) :
    magnitudeOf (s * 2 ^ e) = min infiniteMagnitude ((e + 1074).toNat * fractionCount + s) := by
  rw [magnitudeOf_of_pos (by positivity), hgrid, mul_div_assoc, div_self (by positivity), mul_one, nearestEven_natCast]

theorem log_point_lt {s k : ℕ} {e : ℤ} (hs : 0 < s) (h : s < 2 ^ k) : Int.log 2 ((s : ℚ) * 2 ^ e) < k + e := by
  apply (Int.lt_zpow_iff_log_lt one_lt_two (by positivity)).1
  rw [Nat.cast_ofNat, zpow_add₀ two_ne_zero, zpow_natCast]
  exact mul_lt_mul_of_pos_right (by exact_mod_cast h) (by positivity)

theorem le_log_point {s k : ℕ} {e : ℤ} (hs : 0 < s) (h : 2 ^ k ≤ s) : k + e ≤ Int.log 2 ((s : ℚ) * 2 ^ e) := by
  apply (Int.zpow_le_iff_le_log one_lt_two (by positivity)).1
  rw [Nat.cast_ofNat, zpow_add₀ two_ne_zero, zpow_natCast]
  exact mul_le_mul_of_nonneg_right (by exact_mod_cast h) (by positivity)

/-- **A finite float is the rounding of its own value** -/
theorem magnitudeOf_absValue (h : x.isFinite = true) : magnitudeOf x.absValue = x.magnitude := by
  have hfinite : x.magnitude < infiniteMagnitude := of_decide_eq_true h
  rw [absValue]
  unfold significand exponent
  split_ifs with hsmall
  · rcases Nat.eq_zero_or_pos x.magnitude with hzero | hpos
    · rw [hzero, Nat.cast_zero, zero_mul, magnitudeOf_zero]
    · have hlog := log_point_lt (e := -1074) hpos (by rwa [← fractionCount_eq])
      rw [magnitudeOf_point hpos (by rw [gridOf]; omega), min_eq_right (by simpa using hfinite.le)]
      simp
  · -- the leading bit is not among the bits of the fraction
    generalize hs : x.magnitude % fractionCount + fractionCount = s
    generalize he : ((x.magnitude / fractionCount : ℕ) : ℤ) - 1075 = e
    have hrest : x.magnitude % fractionCount < fractionCount := Nat.mod_lt _ (by decide)
    have hquot : 1 ≤ x.magnitude / fractionCount := (Nat.one_le_div_iff (by decide)).2 (by omega)
    have hsplit := Nat.div_add_mod' x.magnitude fractionCount
    have hpos : 0 < s := by omega
    have hhigh := log_point_lt (k := 53) (e := e) hpos (by rw [pow_succ, ← fractionCount_eq]; omega)
    have hlow := le_log_point (k := 52) (e := e) hpos (by rw [← fractionCount_eq]; omega)
    have hbits : (e + 1074).toNat * fractionCount + s = x.magnitude := by
      have hexp : (e + 1074).toNat + 1 = x.magnitude / fractionCount := by omega
      calc (e + 1074).toNat * fractionCount + s
          = ((e + 1074).toNat + 1) * fractionCount + x.magnitude % fractionCount := by rw [← hs]; ring
        _ = x.magnitude := by rw [hexp, hsplit]
    rw [magnitudeOf_point hpos (by rw [gridOf]; omega), hbits, min_eq_right hfinite.le]

/-! ## Whole numbers -/

@[simp] theorem isNegative_ofInt (i : ℤ) : (ofInt i).isNegative = decide (i < 0) := by
  rw [ofInt_eq, isNegative_ofMagnitude _ (magnitudeOf_le_infinite _)]

@[simp] theorem magnitude_ofInt (i : ℤ) : (ofInt i).magnitude = magnitudeOf i.natAbs := by
  rw [ofInt_eq, magnitude_ofMagnitude _ (magnitudeOf_le_infinite _)]

/-- **A whole number that 64 bits hold is rounded to a finite float** -/
theorem isFinite_ofInt {i : ℤ} (h : i.natAbs < 2 ^ 65) : (ofInt i).isFinite = true := by
  have hle : magnitudeOf (i.natAbs : ℚ) ≤ (12 + 1076) * fractionCount :=
    magnitudeOf_le (Nat.cast_nonneg _) (by exact_mod_cast h)
  rw [isFinite, magnitude_ofInt]
  exact decide_eq_true (lt_of_le_of_lt hle (by decide))

/-- every JSON number is a finite float -/
theorem isFinite_toBinary64 (n : Json.Number) : n.toBinary64.isFinite = true := by
  cases n with
  | int value bounded =>
    rw [Json.FitsWord] at bounded
    exact isFinite_ofInt (by omega)
  | float x finite => exact finite

/-- the parts of a pattern whose leading bit is not among the bits of its fraction -/
theorem absValue_of_magnitude {s k : ℕ} (hlow : fractionCount ≤ s) (hhigh : s < 2 * fractionCount)
    (h : x.magnitude = k * fractionCount + s) : x.absValue = s * 2 ^ ((k : ℤ) - 1074) := by
  have hpos : 0 < fractionCount := by decide
  have hrest : s - fractionCount < fractionCount := by omega
  have hsplit : x.magnitude = (k + 1) * fractionCount + (s - fractionCount) := by
    rw [h, Nat.add_one_mul]
    omega
  have hquot : x.magnitude / fractionCount = k + 1 := by
    rw [hsplit, Nat.mul_comm, Nat.mul_add_div hpos, Nat.div_eq_of_lt hrest, add_zero]
  have hmod : x.magnitude % fractionCount = s - fractionCount := by
    rw [hsplit, Nat.mul_comm, Nat.mul_add_mod, Nat.mod_eq_of_lt hrest]
  have hlarge : ¬ x.magnitude < fractionCount := by
    intro hsmall
    rw [Nat.div_eq_of_lt hsmall] at hquot
    omega
  have hexponent : ((k + 1 : ℕ) : ℤ) - 1075 = k - 1074 := by omega
  rw [absValue, significand, exponent, if_neg hlarge, if_neg hlarge, hquot, hmod, Nat.sub_add_cancel hlow, hexponent]

/-- a whole number below `2^53` is rounded to itself -/
theorem absValue_ofInt {i : ℤ} (h : i.natAbs < 2 ^ 53) : (ofInt i).absValue = i.natAbs := by
  rcases Nat.eq_zero_or_pos i.natAbs with hzero | hpos
  · have hmagnitude : (ofInt i).magnitude = 0 := by rw [magnitude_ofInt, hzero, Nat.cast_zero, magnitudeOf_zero]
    rw [absValue, significand, hmagnitude, if_pos (by decide), hzero, Nat.cast_zero, zero_mul]
  · -- shifted until it has 53 bits, the number is a point of its grid
    obtain ⟨k, hk, hlow, hhigh⟩ : ∃ k ≤ 52, 2 ^ 52 ≤ i.natAbs * 2 ^ k ∧ i.natAbs * 2 ^ k < 2 ^ 53 := by
      have hlog : i.natAbs.log2 < 53 := (Nat.log2_lt hpos.ne').2 h
      refine ⟨52 - i.natAbs.log2, by omega, ?_, ?_⟩
      · calc 2 ^ 52 = 2 ^ i.natAbs.log2 * 2 ^ (52 - i.natAbs.log2) := by rw [← pow_add]; congr 1; omega
          _ ≤ _ := Nat.mul_le_mul_right _ (Nat.log2_self_le hpos.ne')
      · calc i.natAbs * 2 ^ (52 - i.natAbs.log2) < 2 ^ (i.natAbs.log2 + 1) * 2 ^ (52 - i.natAbs.log2) :=
            Nat.mul_lt_mul_of_pos_right Nat.lt_log2_self (Nat.pow_pos two_pos)
          _ = 2 ^ 53 := by rw [← pow_add]; congr 1; omega
    have hvalue : (i.natAbs : ℚ) = (i.natAbs * 2 ^ k : ℕ) * 2 ^ (-(k : ℤ)) := by
      rw [Nat.cast_mul, Nat.cast_pow, Nat.cast_ofNat, zpow_neg, zpow_natCast, mul_assoc, mul_inv_cancel₀ (by positivity),
        mul_one]
    have hs : 0 < i.natAbs * 2 ^ k := Nat.mul_pos hpos (Nat.pow_pos two_pos)
    have hlogLow := le_log_point (e := -(k : ℤ)) hs hlow
    have hlogHigh := log_point_lt (e := -(k : ℤ)) hs hhigh
    have hmagnitude : (ofInt i).magnitude = (1074 - k) * fractionCount + i.natAbs * 2 ^ k := by
      rw [magnitude_ofInt, hvalue, magnitudeOf_point hs (by rw [gridOf]; omega)]
      rw [show (-(k : ℤ) + 1074).toNat = 1074 - k by omega]
      apply min_eq_right
      calc (1074 - k) * fractionCount + i.natAbs * 2 ^ k ≤ 1074 * fractionCount + 2 ^ 53 :=
            Nat.add_le_add (Nat.mul_le_mul_right _ (Nat.sub_le _ _)) hhigh.le
        _ ≤ infiniteMagnitude := by decide
    rw [absValue_of_magnitude (by rwa [fractionCount_eq]) (by rw [fractionCount_eq, ← pow_succ']; exact hhigh) hmagnitude,
      hvalue]
    congr 2
    omega

/-! ## Order -/

theorem absValue_nonneg (x : Binary64) : 0 ≤ x.absValue := mul_nonneg (Nat.cast_nonneg _) (by positivity)

theorem absValue_eq_iff (hx : x.isFinite = true) (hy : y.isFinite = true) :
    x.absValue = y.absValue ↔ x.magnitude = y.magnitude := by
  constructor
  · intro h
    rw [← magnitudeOf_absValue hx, ← magnitudeOf_absValue hy, h]
  · intro h
    rw [absValue, absValue, significand, significand, exponent, exponent, h]

theorem absValue_eq_zero_iff (hx : x.isFinite = true) : x.absValue = 0 ↔ x.magnitude = 0 := by
  constructor
  · intro h
    rw [← magnitudeOf_absValue hx, h, magnitudeOf_zero]
  · intro h
    rw [absValue, significand, h, if_pos (by decide), Nat.cast_zero, zero_mul]

theorem isNaN_eq_false (hx : x.isFinite = true) : x.isNaN = false := by
  have hfinite : x.magnitude < infiniteMagnitude := of_decide_eq_true hx
  exact decide_eq_false (by omega)

/-- **Finite floats compare equal when they stand for one number**; both zeros stand for the same -/
theorem order?_eq_iff (hx : x.isFinite = true) (hy : y.isFinite = true) :
    x.order? y = some .eq ↔ x.toRat = y.toRat := by
  rw [order?, isNaN_eq_false hx, isNaN_eq_false hy, Bool.or_self, if_neg Bool.false_ne_true, Option.some.injEq,
    compare_eq_iff_eq, rank, rank, toRat, toRat]
  have hsame := absValue_eq_iff hx hy
  have hxzero := absValue_eq_zero_iff hx
  have hyzero := absValue_eq_zero_iff hy
  -- numbers of different signs are equal only as zeros
  have hmixed : (x.magnitude : ℤ) = -y.magnitude ↔ x.absValue = -y.absValue := by
    have hxpos := absValue_nonneg x
    have hypos := absValue_nonneg y
    constructor
    · intro h
      rw [hxzero.2 (by omega), hyzero.2 (by omega), neg_zero]
    · intro h
      rw [hxzero.1 (by linarith), hyzero.1 (by linarith)]
      rfl
  cases x.isNegative <;> cases y.isNegative
  · simp [hsame]
  · simp [hmixed]
  · simp [neg_eq_iff_eq_neg, hmixed]
  · simp [hsame]

theorem toRat_ofInt {i : ℤ} (h : i.natAbs < 2 ^ 53) : (ofInt i).toRat = i := by
  rw [toRat, isNegative_ofInt, absValue_ofInt h, Nat.cast_natAbs]
  split_ifs with hneg
  · rw [abs_of_neg (of_decide_eq_true hneg)]
    push_cast
    ring
  · rw [abs_of_nonneg (not_lt.1 (of_decide_eq_false (Bool.eq_false_of_not_eq_true hneg)))]

/-- a pattern past that of `2^53` stands for no smaller number -/
theorem le_absValue (h : 1076 * fractionCount ≤ x.magnitude) : 2 ^ 53 ≤ x.absValue := by
  have hlarge : ¬ x.magnitude < fractionCount := by
    intro hsmall
    have := Nat.zero_lt_of_lt hsmall
    omega
  have hquot : 1076 ≤ x.magnitude / fractionCount := (Nat.le_div_iff_mul_le (by decide)).2 h
  rw [absValue, significand, exponent, if_neg hlarge, if_neg hlarge]
  calc (2 : ℚ) ^ 53 = (fractionCount : ℕ) * 2 ^ (1 : ℤ) := by rw [fractionCount_eq]; norm_num
    _ ≤ _ := by
      apply mul_le_mul
      · exact_mod_cast Nat.le_add_left _ _
      · exact zpow_le_zpow_right₀ one_le_two (by omega)
      · positivity
      · positivity

theorem abs_toRat (x : Binary64) : |x.toRat| = x.absValue := by
  rw [toRat]
  split_ifs
  · rw [abs_neg, abs_of_nonneg (absValue_nonneg x)]
  · rw [abs_of_nonneg (absValue_nonneg x)]

/-- **Below `2^53` no other whole number is rounded to the same float** -/
theorem toRat_ofInt_eq_iff {i : ℤ} (j : ℤ) (h : i.natAbs < 2 ^ 53) : (ofInt j).toRat = i ↔ j = i := by
  constructor
  · intro hvalue
    have hj : j.natAbs < 2 ^ 53 := by
      by_contra hlarge
      have hmagnitude : 1076 * fractionCount ≤ (ofInt j).magnitude := by
        rw [magnitude_ofInt, ← min_eq_right (a := infiniteMagnitude) (b := 1076 * fractionCount) (by decide)]
        apply le_magnitudeOf (k := 1)
        rw [show ((1 : ℕ) : ℤ) + 52 = (53 : ℕ) from rfl, zpow_natCast]
        exact_mod_cast not_lt.1 hlarge
      have habs : (2 : ℚ) ^ 53 ≤ |(i : ℚ)| := by
        rw [← hvalue, abs_toRat]
        exact le_absValue hmagnitude
      rw [← Int.cast_abs, ← Nat.cast_natAbs] at habs
      exact absurd h (not_lt.2 (by exact_mod_cast habs))
    rw [toRat_ofInt hj] at hvalue
    exact_mod_cast hvalue
  · rintro rfl
    exact toRat_ofInt h

end PartitionedScan.Binary64
