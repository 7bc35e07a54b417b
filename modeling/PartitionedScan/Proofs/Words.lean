/-
Planning in machine words.

The split of row ids is stated over numbers without a bound. Here the same steps are run with every result checked: ids and
counts in words of 64 bits, the products and sums of a split in words of 128 bits, and no difference below zero. The first
result that does not fit ends the run without an answer. Main results:
- `RowRange.splitInWords?_eq`: a split into at least one part and at most as many as the range has ids fits, the range of
  all ids included;
- `RowRange.splitInWords?_eq_none`: asked for more parts than that, a range from id 0 on takes one from zero;
- `Partitioning.groupsInWords?_eq`: rounding up a division of words fits.
-/
import PartitionedScan.Proofs.Coverage
import PartitionedScan.Proofs.Outcomes

namespace PartitionedScan

open Text.Integer (count64)

namespace Word

/-- how many values 128 bits have -/
def count128 : Nat := count64 * count64

/-- a result, if a word with so many values has it -/
def fit? (values n : Nat) : Option Nat := if n < values then some n else none

/-- a difference, if it does not fall below zero -/
def sub? (a b : Nat) : Option Nat := if b ≤ a then some (a - b) else none

theorem fit?_eq {values n : Nat} (h : n < values) : fit? values n = some n := if_pos h

theorem sub?_eq {a b : Nat} (h : b ≤ a) : sub? a b = some (a - b) := if_pos h

end Word

namespace RowRange

/-! ## Definitions -/

def widthInWords? (r : RowRange) : Option Nat := do
  let span ← Word.sub? r.upper.toNat r.lower.toNat
  Word.fit? Word.count128 (span + 1)

/-- where part `i` of `parts` starts -/
def cutInWords? (r : RowRange) (width parts i : Nat) : Option Nat := do
  let product ← Word.fit? Word.count128 (width * i)
  Word.fit? Word.count128 (r.lower.toNat + product / parts)

def partInWords? (r : RowRange) (width parts i : Nat) : Option RowRange := do
  let start ← r.cutInWords? width parts i
  let next ← Word.fit? Word.count128 (i + 1)
  let stop ← r.cutInWords? width parts next
  let last ← Word.sub? stop 1
  return ⟨UInt64.ofNat (← Word.fit? count64 start), UInt64.ofNat (← Word.fit? count64 last)⟩

/-- `split` with every result checked -/
def splitInWords? (r : RowRange) (parts : Nat) : Option (List RowRange) := do
  let width ← r.widthInWords?
  (List.range (max parts 1)).mapM (r.partInWords? width (max parts 1))

/-! ## What fits -/

variable {r : RowRange} {parts : Nat}

theorem width_le (r : RowRange) : r.width ≤ count64 := by
  have := r.upper.toNat_lt
  unfold width count64
  omega

theorem widthInWords?_eq (hle : r.lower.toNat ≤ r.upper.toNat) : r.widthInWords? = some r.width := by
  have hmax := r.upper.toNat_lt
  have hspan : r.upper.toNat - r.lower.toNat + 1 = r.width := by unfold width; omega
  have hfit : r.width < Word.count128 := by
    have := r.width_le
    unfold Word.count128 count64 at *
    omega
  rw [widthInWords?, Word.sub?_eq hle, Option.bind_eq_bind, Option.bind_some, hspan, Word.fit?_eq hfit]

theorem cutInWords?_eq (r : RowRange) {i : Nat} (hi : i < count64) :
    r.cutInWords? r.width parts i = some (r.cut parts i) := by
  have hproduct : r.width * i ≤ 18446744073709551616 * 18446744073709551615 :=
    Nat.mul_le_mul r.width_le (Nat.le_of_lt_succ hi)
  have hquotient : r.width * i / parts ≤ r.width * i := Nat.div_le_self _ _
  have hlower := r.lower.toNat_lt
  have hfit : r.width * i < Word.count128 := by unfold Word.count128 count64; omega
  have hfit' : r.cut parts i < Word.count128 := by unfold cut Word.count128 count64; omega
  rw [cutInWords?, Word.fit?_eq hfit, Option.bind_eq_bind, Option.bind_some, ← cut, Word.fit?_eq hfit']

theorem partInWords?_eq (hparts : 0 < parts) (hwords : parts < count64) (hwidth : parts ≤ r.width)
    (hle : r.lower.toNat ≤ r.upper.toNat) {i : Nat} (hi : i < parts) :
    r.partInWords? r.width parts i =
      some ⟨UInt64.ofNat (r.cut parts i), UInt64.ofNat (r.cut parts (i + 1) - 1)⟩ := by
  have hlt := cut_lt (r := r) hparts hwidth i
  have hend : r.cut parts (i + 1) ≤ r.upper.toNat + 1 := r.cut_le hparts hle hi
  have hmax := r.upper.toNat_lt
  have hnext : i + 1 < Word.count128 := by unfold Word.count128 count64 at *; omega
  have hstart : r.cut parts i < count64 := by unfold count64; omega
  have hlast : r.cut parts (i + 1) - 1 < count64 := by unfold count64; omega
  rw [partInWords?, cutInWords?_eq r (by omega), Word.fit?_eq hnext]
  simp only [Option.bind_eq_bind, Option.bind_some]
  rw [cutInWords?_eq r (by omega), Option.bind_some, Word.sub?_eq (by omega), Option.bind_some, Word.fit?_eq hstart,
    Option.bind_some, Word.fit?_eq hlast]
  rfl

/-- **A split fits its words.** At least one part and at most as many as the range has ids, as counts of 64 bits: no
product, sum or difference leaves its word, and the parts are those of `split`. -/
theorem splitInWords?_eq (hparts : 0 < parts) (hwords : parts < count64) (hwidth : parts ≤ r.width)
    (hle : r.lower.toNat ≤ r.upper.toNat) : r.splitInWords? parts = some (r.split parts) := by
  rw [splitInWords?, widthInWords?_eq hle, Option.bind_eq_bind, Option.bind_some, Nat.max_eq_left hparts]
  rw [split, Nat.max_eq_left hparts]
  apply mapM_eq_some_map
  intro i hi
  exact partInWords?_eq hparts hwords hwidth hle (List.mem_range.1 hi)

/-- **A split into too many parts does not fit** when the range starts at id 0: the first part ends before it starts, and
there is no id before that -/
theorem splitInWords?_eq_none (hlower : r.lower.toNat = 0) (hwords : parts < count64) (hwidth : r.width < parts) :
    r.splitInWords? parts = none := by
  have hparts : 0 < parts := by omega
  have hstop : r.cut parts 1 = 0 := by
    rw [cut, hlower, Nat.mul_one, Nat.div_eq_of_lt hwidth]
  have hfirst : r.partInWords? r.width parts 0 = none := by
    have hnext : 0 + 1 < Word.count128 := by decide
    rw [partInWords?, cutInWords?_eq r (by omega), Word.fit?_eq hnext]
    simp only [Option.bind_eq_bind, Option.bind_some]
    rw [cutInWords?_eq r (by decide), Nat.zero_add, hstop]
    rfl
  rw [splitInWords?, widthInWords?_eq (by omega), Option.bind_eq_bind, Option.bind_some, Nat.max_eq_left hparts]
  exact mapM_eq_none (List.mem_range.2 hparts) hfirst

end RowRange

namespace Partitioning

/-- a division rounded up, with the last step checked -/
def groupsInWords? (size count : Nat) : Option Nat :=
  if count % size = 0 then some (count / size) else Word.fit? count64 (count / size + 1)

/-- **Rounding up fits a word**: the result is no larger than what is divided -/
theorem groupsInWords?_eq {size count : Nat} (hsize : 0 < size) (hcount : count < count64) :
    groupsInWords? size count = some (groupsOf size count) := by
  have hle : groupsOf size count ≤ count := (groupsOf_le_iff hsize).2 (Nat.le_mul_of_pos_left count hsize)
  have hsum := Nat.div_add_mod count size
  have hmod := Nat.mod_lt count hsize
  rw [groupsInWords?]
  split_ifs with h
  · have hexact : groupsOf size count = count / size := by
      apply le_antisymm
      · rw [groupsOf_le_iff hsize]
        omega
      · exact Nat.div_le_div_right (by omega)
    rw [hexact]
  · have hround : groupsOf size count = count / size + 1 := by
      apply le_antisymm
      · rw [groupsOf_le_iff hsize, Nat.mul_succ]
        omega
      · rw [Nat.succ_le_iff, ← not_le, groupsOf_le_iff hsize]
        omega
    rw [← hround, Word.fit?_eq (by omega)]

end Partitioning

end PartitionedScan
