/-
One split of a range, exact and balanced.

The parts of a split are the differences of rounded-down products, and such differences add up: where one part stops the next
one starts, so nothing is lost or read twice (`RowRange.Tiles`), and each part has the rounded-down share of the width or one
id more. `EvenSplit` says what that comes to for a list of ranges, seen from its ends and from neighbours. Main result:
- `split_even`: cutting any range into at least one part and at most as many as it has ids is such a split, and no step of it
  leaves its word.
-/
import PartitionedScan.Proofs.Planning

namespace PartitionedScan.RowRange

/-- ranges in the place of one: as many as asked for, from its first id to its last, each starting one past the end of the one
before, none empty, and equally wide up to one id -/
structure EvenSplit (r : RowRange) (parts : Nat) (pieces : List RowRange) : Prop where
  length : pieces.length = parts
  first : pieces.head?.map RowRange.lower = some r.lower
  last : pieces.getLast?.map RowRange.upper = some r.upper
  adjacent : pieces.IsChain fun a b => b.lower.toNat = a.upper.toNat + 1
  nonempty : ∀ p ∈ pieces, p.lower ≤ p.upper
  balanced : ∀ p ∈ pieces, ∀ q ∈ pieces, p.width ≤ q.width + 1
  total : (pieces.map RowRange.width).sum = r.width

namespace Tiles

variable {lo hi : Nat} {rs : List RowRange}

/-- a tile starts one past the end of the one before -/
theorem adjacent (h : Tiles lo hi rs) : rs.IsChain fun a b => b.lower.toNat = a.upper.toNat + 1 := by
  induction rs generalizing lo with
  | nil => exact .nil
  | cons r rs ih =>
    obtain ⟨_, _, hrest⟩ := h
    refine List.isChain_cons.2 ⟨fun s hs => ?_, ih hrest⟩
    obtain ⟨rest, rfl⟩ := List.head?_eq_some_iff.1 hs
    exact hrest.1

/-- tiles have as many ids as lie between the ends -/
theorem sum_width (h : Tiles lo hi rs) : lo + (rs.map RowRange.width).sum = hi := by
  induction rs generalizing lo with
  | nil => exact h
  | cons r rs ih =>
    obtain ⟨rfl, hle, hrest⟩ := h
    have hsum := ih hrest
    rw [List.map_cons, List.sum_cons, width]
    omega

end Tiles

variable {r : RowRange} {parts : Nat}

/-- the parts of a split within its contract -/
theorem evenSplit_split (hparts : 0 < parts) (hwidth : parts ≤ r.width) (hle : r.lower.toNat ≤ r.upper.toNat) :
    r.EvenSplit parts (r.split parts) := by
  have htiles := tiles_split hparts hwidth hle
  constructor
  case length => exact length_split r hparts
  case first =>
    obtain ⟨p, hp, hlower⟩ := htiles.head (by omega)
    rw [hp, Option.map_some, UInt64.toNat_inj.1 hlower]
  case last =>
    obtain ⟨p, hp, hupper⟩ := htiles.last (by omega)
    rw [hp, Option.map_some, UInt64.toNat_inj.1 (Nat.succ_inj.1 hupper)]
  case adjacent => exact htiles.adjacent
  case nonempty =>
    intro p hp
    exact UInt64.le_iff_toNat_le.2 (htiles.bounds p hp).2.1
  case balanced =>
    intro p hp q hq
    have hmost := (width_split hparts hwidth hle hp).2
    have hleast := (width_split hparts hwidth hle hq).1
    omega
  case total =>
    have hsum := htiles.sum_width
    rw [show r.width = r.upper.toNat + 1 - r.lower.toNat from rfl]
    omega

/-- **A split is exact and balanced.** Any range that is not inverted, up to the one of all ids, and any number of parts from
one up to the number of its ids: every product, sum and difference fits 128 bits and every bound 64, and the ranges are as many
as asked for, from the first id to the last, one right after another, none empty, and equally wide up to one id. -/
theorem split_even (r : RowRange) (parts : UInt64) (hle : r.lower ≤ r.upper) (hparts : 1 ≤ parts)
    (hwidth : parts.toNat ≤ r.width) :
    r.splitInWords? parts.toNat = some (r.split parts.toNat) ∧ r.EvenSplit parts.toNat (r.split parts.toNat) := by
  have hends := UInt64.le_iff_toNat_le.1 hle
  have hpos : 0 < parts.toNat := UInt64.le_iff_toNat_le.1 hparts
  exact ⟨splitInWords?_eq hpos parts.toNat_lt hwidth hends, evenSplit_split hpos hwidth hends⟩

/-- all ids of 64 bits in as many parts as a word can ask for: one part has two ids, and the others one -/
theorem split_even_largest :
    full.splitInWords? (18446744073709551615 : UInt64).toNat = some (full.split (18446744073709551615 : UInt64).toNat) ∧
      full.EvenSplit (18446744073709551615 : UInt64).toNat (full.split (18446744073709551615 : UInt64).toNat) :=
  split_even full 18446744073709551615 (by decide) (by decide) (by decide)

example : full.split 3 =
    [⟨0, 6148914691236517204⟩, ⟨6148914691236517205, 12297829382473034409⟩,
      ⟨12297829382473034410, 18446744073709551615⟩] := by decide

end PartitionedScan.RowRange
