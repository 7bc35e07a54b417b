/-
Whole numbers in decimal.

`ofNat` writes a natural number with no leading zero. `readNat?` reads one or more ASCII digits; `readUnsigned?` also
takes a plus sign in front and `readSigned?` either sign. Leading zeros are fine, blanks are not. `readBase?` reads
digits of another base.
-/

namespace PartitionedScan.Text.Integer

/-- the digits of a natural number, most significant first -/
def ofNat (n : Nat) : List Char :=
  Nat.toDigits 10 n

/-- the digits of an integer, after a minus sign when it is negative -/
def ofInt (i : Int) : List Char :=
  if i < 0 then '-' :: ofNat i.natAbs else ofNat i.natAbs

/-- the number that a run of digits stands for -/
def value (digits : List Char) : Nat :=
  Nat.ofDigitChars 10 digits 0

/-- one or more ASCII digits and nothing else -/
def readNat? (cs : List Char) : Option Nat :=
  if !cs.isEmpty && cs.all Char.isDigit then some (value cs) else none

/-- digits, or digits after a plus sign -/
def readUnsigned? : List Char → Option Nat
  | '+' :: r => readNat? r
  | cs => readNat? cs

/-- digits, or digits after either sign -/
def readSigned? : List Char → Option Int
  | '+' :: r => (readNat? r).map Int.ofNat
  | '-' :: r => (readNat? r).map fun n => -(n : Int)
  | cs => (readNat? cs).map Int.ofNat

/-- an unsigned number below a bound -/
def readBelow? (bound : Nat) (cs : List Char) : Option Nat :=
  (readUnsigned? cs).filter (· < bound)

/-- how many values 16 bits have -/
def count16 : Nat := 65536

/-- how many values 64 bits have -/
def count64 : Nat := 18446744073709551616

/-- an unsigned number that 64 bits hold -/
def readUInt64? (cs : List Char) : Option UInt64 :=
  (readBelow? count64 cs).map UInt64.ofNat

/-- a signed number that 64 bits hold -/
def readInt64? (cs : List Char) : Option Int64 :=
  match readSigned? cs with
  | some i => if Int64.minValue.toInt ≤ i ∧ i ≤ Int64.maxValue.toInt then some (Int64.ofInt i) else none
  | none => none

/-! ## Other bases -/

/-- the value of a digit below a base, letters in either case from ten on -/
def digit? (base : Nat) (c : Char) : Option Nat :=
  let n := c.toNat
  let v :=
    if '0' ≤ c ∧ c ≤ '9' then n - 48
    else if 'a' ≤ c ∧ c ≤ 'z' then n - 87
    else if 'A' ≤ c ∧ c ≤ 'Z' then n - 55
    else base
  if v < base then some v else none

/-- the number that digits of a base make, most significant first -/
def readBase? (base : Nat) (cs : List Char) : Option Nat :=
  cs.foldlM (fun n c => (digit? base c).map (n * base + ·)) 0

/-! ## Digits -/

theorem isDigit_ofNat (n : Nat) : ∀ c ∈ ofNat n, c.isDigit = true :=
  fun _ hc => Nat.isDigit_of_mem_toDigits (by decide) (by decide) hc

theorem ofNat_ne_nil (n : Nat) : ofNat n ≠ [] :=
  Nat.toDigits_ne_nil

@[simp] theorem value_ofNat (n : Nat) : value (ofNat n) = n :=
  Nat.ofDigitChars_ten_toDigits

theorem isDigit_zeros (n : Nat) : ∀ c ∈ List.replicate n '0', c.isDigit = true := by
  intro c hc
  rw [List.eq_of_mem_replicate hc]
  rfl

/-- zeros in front of digits count for nothing -/
theorem value_zeros_append (n : Nat) (cs : List Char) : value (List.replicate n '0' ++ cs) = value cs := by
  rw [value, Nat.ofDigitChars_append, Nat.ofDigitChars_replicate_zero, Nat.mul_zero, value]

theorem digit_lt {c : Char} (h : c.isDigit = true) : c.toNat - '0'.toNat < 10 := by
  have hrange := Char.isDigit_iff_toNat.1 h
  have hends : '0'.toNat = 48 ∧ '9'.toNat = 57 := ⟨rfl, rfl⟩
  omega

/-- a digit is the text of its value -/
theorem ofNat_digit {c : Char} (h : c.isDigit = true) : ofNat (c.toNat - '0'.toNat) = [c] := by
  have hchar : Nat.digitChar (c.toNat - '0'.toNat) = c := by
    have hleast := (Char.isDigit_iff_toNat.1 h).1
    have hzero : '0'.toNat = 48 := rfl
    apply Char.toNat_inj.1
    rw [Nat.toNat_digitChar_of_lt_ten (digit_lt h)]
    omega
  rw [ofNat, Nat.toDigits_of_lt_base (digit_lt h), hchar]

/-- digits behind those of a positive number are digits of the number that they make together -/
theorem ofNat_ofDigitChars {n : Nat} (hn : 0 < n) {cs : List Char} (h : ∀ c ∈ cs, c.isDigit = true) :
    ofNat (Nat.ofDigitChars 10 cs n) = ofNat n ++ cs := by
  induction cs generalizing n with
  | nil => rw [Nat.ofDigitChars_nil, List.append_nil]
  | cons c r ih =>
    rw [List.forall_mem_cons] at h
    have hlast : ofNat (10 * n + (c.toNat - '0'.toNat)) = ofNat n ++ [c] := by
      rw [← ofNat_digit h.1]
      exact (Nat.toDigits_append_toDigits (by decide) hn (digit_lt h.1)).symm
    rw [Nat.ofDigitChars_cons, ih (by omega) h.2, hlast, List.append_assoc, List.singleton_append]

/-- digits are those of their value, behind zeros -/
theorem exists_zeros {cs : List Char} (hne : cs ≠ []) (h : ∀ c ∈ cs, c.isDigit = true) :
    ∃ zeros, cs = List.replicate zeros '0' ++ ofNat (value cs) := by
  induction cs with
  | nil => exact absurd rfl hne
  | cons c r ih =>
    rw [List.forall_mem_cons] at h
    by_cases hzero : c = '0'
    · subst hzero
      by_cases hr : r = []
      · subst hr
        exact ⟨0, rfl⟩
      · obtain ⟨zeros, hzeros⟩ := ih hr h.2
        refine ⟨zeros + 1, ?_⟩
        rw [show value ('0' :: r) = value r from value_zeros_append 1 r, List.replicate_succ, List.cons_append, ← hzeros]
    · -- from the first other digit on nothing is cut, for the number read so far is positive
      have hpos : 0 < c.toNat - '0'.toNat := by
        have hleast := (Char.isDigit_iff_toNat.1 h.1).1
        have hne : c.toNat ≠ '0'.toNat := fun heq => hzero (Char.toNat_inj.1 heq)
        omega
      refine ⟨0, ?_⟩
      rw [value, Nat.ofDigitChars_cons, Nat.mul_zero, Nat.zero_add, ofNat_ofDigitChars hpos h.2, ofNat_digit h.1]
      rfl

theorem isDigit_zeros_append (zeros n : Nat) : ∀ c ∈ List.replicate zeros '0' ++ ofNat n, c.isDigit = true :=
  List.forall_mem_append.2 ⟨isDigit_zeros zeros, isDigit_ofNat n⟩

/-! ## What is read -/

/-- a number is read from its digits, also behind zeros, and from nothing else -/
theorem readNat?_eq_some_iff {cs : List Char} {n : Nat} :
    readNat? cs = some n ↔ ∃ zeros, cs = List.replicate zeros '0' ++ ofNat n := by
  constructor
  · intro h
    rw [readNat?] at h
    split at h
    · next hdigits =>
      cases h
      rw [Bool.and_eq_true, Bool.not_eq_true', List.isEmpty_eq_false_iff, List.all_eq_true] at hdigits
      exact exists_zeros hdigits.1 hdigits.2
    · cases h
  · rintro ⟨zeros, rfl⟩
    have hne : List.replicate zeros '0' ++ ofNat n ≠ [] := List.append_ne_nil_of_right_ne_nil _ (ofNat_ne_nil n)
    rw [readNat?, List.isEmpty_eq_false_iff.2 hne, List.all_eq_true.2 (isDigit_zeros_append zeros n), value_zeros_append,
      value_ofNat]
    rfl

theorem readNat?_ofNat (n : Nat) : readNat? (ofNat n) = some n :=
  readNat?_eq_some_iff.2 ⟨0, rfl⟩

/-- a plus sign or none -/
def plusSign (plus : Bool) : List Char :=
  if plus then ['+'] else []

/-- an unsigned number is read from its digits, also behind zeros and a plus sign, and from nothing else -/
theorem readUnsigned?_eq_some_iff {cs : List Char} {n : Nat} :
    readUnsigned? cs = some n ↔ ∃ plus zeros, cs = plusSign plus ++ (List.replicate zeros '0' ++ ofNat n) := by
  unfold readUnsigned?
  split
  · next r =>
    rw [readNat?_eq_some_iff]
    constructor
    · rintro ⟨zeros, rfl⟩
      exact ⟨true, zeros, rfl⟩
    · rintro ⟨plus, zeros, h⟩
      cases plus with
      | true => exact ⟨zeros, (List.cons.inj h).2⟩
      | false =>
        have hplus : '+' ∈ List.replicate zeros '0' ++ ofNat n := h ▸ List.mem_cons_self
        exact absurd (isDigit_zeros_append zeros n _ hplus) (by decide)
  · next hplus =>
    rw [readNat?_eq_some_iff]
    constructor
    · rintro ⟨zeros, rfl⟩
      exact ⟨false, zeros, rfl⟩
    · rintro ⟨plus, zeros, rfl⟩
      cases plus with
      | true => exact absurd rfl (hplus _)
      | false => exact ⟨zeros, rfl⟩

/-- the characters of an unsigned number are digits and a plus sign -/
theorem mem_unsigned {plus : Bool} {zeros n : Nat} {c : Char}
    (h : c ∈ plusSign plus ++ (List.replicate zeros '0' ++ ofNat n)) : c = '+' ∨ c.isDigit = true := by
  rcases List.mem_append.1 h with hplus | hdigits
  · left
    cases plus with
    | true => exact List.mem_singleton.1 hplus
    | false => cases hplus
  · exact Or.inr (isDigit_zeros_append zeros n c hdigits)

theorem readUnsigned?_ofNat (n : Nat) : readUnsigned? (ofNat n) = some n :=
  readUnsigned?_eq_some_iff.2 ⟨false, 0, rfl⟩

end PartitionedScan.Text.Integer
