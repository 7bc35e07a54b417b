/-
The check of coverage is exact.

`Partitioning.coversAllRows` walks over the buckets and compares each with the end of the one before. What it stands for says
nothing of neighbours: no bucket is inverted, the buckets start in ascending order, and every row id lies in just one of them
(`ExactCover`). Both are the same, for partitions and buckets of any kind, numbered or not, empty or not (`Tiles.iff_exact`).
Where the check succeeds, the buckets of each partition tile the ids of its range, since tiles fall apart where the
partitions do (`Tiles.of_append`). Main result:
- `covers_iff_exact`: the check succeeds just on exact covers, and then the ranges of partitions hold the ids of their
  buckets and no id of another partition.
-/
import PartitionedScan.Proofs.Planning

namespace PartitionedScan

open Text.Integer (count64)

/-! ## Tiles -/

namespace RowRange.Tiles

variable {lo hi : Nat} {r : RowRange} {rs ss : List RowRange}

theorem of_append (h : Tiles lo hi (rs ++ ss)) : ∃ mid, Tiles lo mid rs ∧ Tiles mid hi ss := by
  induction rs generalizing lo with
  | nil => exact ⟨lo, rfl, h⟩
  | cons r rs ih =>
    obtain ⟨hlower, hle, hrest⟩ := h
    obtain ⟨mid, hfirst, hlast⟩ := ih hrest
    exact ⟨mid, ⟨hlower, hle, hfirst⟩, hlast⟩

theorem lt_of_ne_nil (h : Tiles lo hi rs) (hne : rs ≠ []) : lo < hi := by
  cases rs with
  | nil => exact absurd rfl hne
  | cons r rs =>
    obtain ⟨_, hle, hrest⟩ := h
    have hend := hrest.le
    omega

theorem exists_contains_iff (h : Tiles lo hi rs) (id : UInt64) :
    (∃ r ∈ rs, r.contains id = true) ↔ lo ≤ id.toNat ∧ id.toNat < hi := by
  rw [← List.countP_pos_iff, h.countP_contains id]
  split_ifs with hid
  · exact iff_of_true one_pos hid
  · exact iff_of_false (Nat.lt_irrefl 0) hid

theorem increasing (h : Tiles lo hi rs) : rs.Pairwise fun a b => a.lower < b.lower := by
  refine h.ascending.imp_of_mem fun {a b} ha _ hlt => ?_
  have hle := (h.bounds a ha).2.1
  rw [UInt64.lt_iff_toNat_lt] at hlt ⊢
  omega

/-- every id is met as often as the ends say: once between them, never outside -/
abbrev Counts (lo hi : Nat) (rs : List RowRange) : Prop :=
  ∀ id : UInt64, rs.countP (fun r => r.contains id) = if lo ≤ id.toNat ∧ id.toNat < hi then 1 else 0

theorem Counts.mem_ends (h : Counts lo hi rs) (hr : r ∈ rs) {id : UInt64} (hid : r.contains id = true) :
    lo ≤ id.toNat ∧ id.toNat < hi := by
  have hpos : 0 < rs.countP fun r => r.contains id := List.countP_pos_iff.2 ⟨r, hr, hid⟩
  rw [h id] at hpos
  by_contra hout
  rw [if_neg hout] at hpos
  exact Nat.lt_irrefl 0 hpos

/-- what starts first starts at the lower end, because that end is met too and by nothing earlier -/
theorem Counts.lower_eq (h : Counts lo hi (r :: rs)) (hle : r.lower.toNat ≤ r.upper.toNat)
    (hfirst : ∀ s ∈ rs, r.lower < s.lower) (hmax : hi ≤ count64) : r.lower.toNat = lo := by
  have hown : r.contains r.lower = true := by
    rw [contains_eq, decide_eq_true_eq]
    omega
  obtain ⟨hlo, hhi⟩ := h.mem_ends List.mem_cons_self hown
  have hword : (UInt64.ofNat lo).toNat = lo := toNat_ofNat (by unfold count64 at hmax; omega)
  -- some range holds the lower end, and of those behind the first none starts early enough
  have hone := h (UInt64.ofNat lo)
  rw [hword, if_pos ⟨le_rfl, by omega⟩] at hone
  obtain ⟨s, hs, hcontains⟩ := List.countP_pos_iff.1 (hone.symm ▸ one_pos)
  rw [contains_eq, hword, decide_eq_true_eq] at hcontains
  rcases List.mem_cons.1 hs with rfl | hs
  · omega
  · have hlt := UInt64.lt_iff_toNat_lt.1 (hfirst s hs)
    omega

/-- without the first range, the ids behind it are still met once -/
theorem Counts.tail (h : Counts r.lower.toNat hi (r :: rs)) (hle : r.lower.toNat ≤ r.upper.toNat) :
    Counts (r.upper.toNat + 1) hi rs := by
  intro id
  have hid := h id
  rw [List.countP_cons, contains_eq] at hid
  simp only [decide_eq_true_eq] at hid
  split_ifs at hid ⊢ <;> omega

/-- **Tiles are exact covers.** Ranges tile what lies between two ends just when none is inverted, they start in ascending
order, and the ids between the ends are met once and the others never. -/
theorem iff_exact (hmax : hi ≤ count64) : Tiles lo hi rs ↔
    lo ≤ hi ∧ (∀ r ∈ rs, r.lower.toNat ≤ r.upper.toNat) ∧ (rs.Pairwise fun a b => a.lower < b.lower) ∧ Counts lo hi rs := by
  constructor
  · intro h
    exact ⟨h.le, fun r hr => (h.bounds r hr).2.1, h.increasing, h.countP_contains⟩
  · rintro ⟨hends, hle, hincreasing, hcounts⟩
    induction rs generalizing lo with
    | nil =>
      by_contra hne
      have hlt : lo < hi := Nat.lt_of_le_of_ne hends hne
      have hword : (UInt64.ofNat lo).toNat = lo := toNat_ofNat (by unfold count64 at hmax; omega)
      have hnone := hcounts (UInt64.ofNat lo)
      rw [hword, if_pos ⟨le_rfl, hlt⟩] at hnone
      cases hnone
    | cons r rs ih =>
      rw [List.forall_mem_cons] at hle
      obtain ⟨hfirst, hrest⟩ := List.pairwise_cons.1 hincreasing
      obtain rfl := hcounts.lower_eq hle.1 hfirst hmax
      have hlast : r.contains r.upper = true := by
        rw [contains_eq, decide_eq_true_eq]
        omega
      have hupper := (hcounts.mem_ends List.mem_cons_self hlast).2
      exact ⟨rfl, hle.1, ih hupper hle.2 hrest (hcounts.tail hle.1)⟩

end RowRange.Tiles

/-! ## Partitions -/

namespace Partition

open RowRange (Tiles)

variable {lo hi : Nat}

/-- a partition whose buckets are tiles has a range, if it has buckets at all, and that range holds the ids of its buckets -/
theorem range?_contains {p : Partition} (h : Tiles lo hi (p.buckets.map Bucket.range)) (hne : p.buckets ≠ []) :
    ∃ r, p.range? = some r ∧ ∀ id, r.contains id = true ↔ ∃ b ∈ p.buckets, b.range.contains id = true := by
  obtain ⟨r, hr, rfl, rfl⟩ := range?_of_tiles h (h.lt_of_ne_nil (by simpa using hne))
  refine ⟨r, hr, fun id => ?_⟩
  have hsome := h.exists_contains_iff id
  simp only [List.mem_map, exists_exists_and_eq_and] at hsome
  rw [hsome, RowRange.contains_eq, decide_eq_true_eq]

theorem buckets_ne_nil {p : Partition} {r : RowRange} (h : p.range? = some r) : p.buckets ≠ [] := by
  intro hnil
  rw [range?, hnil] at h
  cases h

theorem ends_of_range? {p : Partition} {r : RowRange} (h : Tiles lo hi (p.buckets.map Bucket.range))
    (hr : p.range? = some r) : r.lower.toNat = lo ∧ r.upper.toNat + 1 = hi := by
  obtain ⟨s, hs, hends⟩ := range?_of_tiles h (h.lt_of_ne_nil (by simpa using buckets_ne_nil hr))
  obtain rfl : r = s := Option.some.inj (hr.symm.trans hs)
  exact hends

/-- **Tiles by partitions.** Where the buckets of partitions, one after another, are tiles, those of each partition are, and
every partition ends before the next ones begin. -/
theorem tiles_apart {ps : List Partition} (h : Tiles lo hi ((ps.flatMap buckets).map Bucket.range)) :
    (∀ p ∈ ps, ∃ a b, lo ≤ a ∧ Tiles a b (p.buckets.map Bucket.range)) ∧
      ps.Pairwise fun p q => ∀ r ∈ p.range?, ∀ s ∈ q.range?, r.upper < s.lower := by
  induction ps generalizing lo with
  | nil => exact ⟨nofun, .nil⟩
  | cons p ps ih =>
    rw [List.flatMap_cons, List.map_append] at h
    obtain ⟨mid, hfirst, hrest⟩ := h.of_append
    obtain ⟨htiles, hpairs⟩ := ih hrest
    have hmid := hfirst.le
    rw [List.forall_mem_cons, List.pairwise_cons]
    refine ⟨⟨⟨lo, mid, le_rfl, hfirst⟩, fun q hq => ?_⟩, fun q hq r hr s hs => ?_, hpairs⟩
    · obtain ⟨a, b, ha, hq⟩ := htiles q hq
      exact ⟨a, b, hmid.trans ha, hq⟩
    · obtain ⟨a, b, ha, hq⟩ := htiles q hq
      have hend := (ends_of_range? hfirst hr).2
      have hstart := (ends_of_range? hq hs).1
      rw [UInt64.lt_iff_toNat_lt]
      omega

end Partition

/-! ## The check -/

namespace Partitioning

/-- no bucket is inverted, the buckets start in ascending order, and every row id lies in just one of them -/
structure ExactCover (p : Partitioning) : Prop where
  nonempty : ∀ b ∈ p.buckets, b.range.lower ≤ b.range.upper
  increasing : p.buckets.Pairwise fun a b => a.range.lower < b.range.lower
  once : ∀ id : UInt64, p.buckets.countP (fun b => b.range.contains id) = 1

theorem exactCover_iff_tiles {p : Partitioning} :
    p.ExactCover ↔ RowRange.Tiles 0 count64 (p.buckets.map Bucket.range) := by
  have hcounts : RowRange.Tiles.Counts 0 count64 (p.buckets.map Bucket.range) ↔
      ∀ id : UInt64, p.buckets.countP (fun b => b.range.contains id) = 1 := by
    refine forall_congr' fun id => ?_
    rw [List.countP_map, if_pos ⟨Nat.zero_le _, id.toNat_lt⟩]
    rfl
  rw [RowRange.Tiles.iff_exact le_rfl, List.forall_mem_map, List.pairwise_map, hcounts]
  simp only [← UInt64.le_iff_toNat_le]
  constructor
  · rintro ⟨hnonempty, hincreasing, honce⟩
    exact ⟨Nat.zero_le _, hnonempty, hincreasing, honce⟩
  · rintro ⟨_, hnonempty, hincreasing, honce⟩
    exact ⟨hnonempty, hincreasing, honce⟩

theorem coversAllRows_iff_tiles {p : Partitioning} :
    p.coversAllRows = true ↔ p.partitions = [] ∨ RowRange.Tiles 0 count64 (p.buckets.map Bucket.range) := by
  rw [coversAllRows, Bool.or_eq_true, coversFrom_iff, isEmpty, List.isEmpty_iff]

/-- **The check of coverage is exact**, whatever the partitions and their buckets are. It succeeds just when there are no
partitions or the buckets are an exact cover of the row ids. When it succeeds, every partition with buckets has a range,
which holds an id just when one of its buckets does, and no id lies in the ranges of two partitions. -/
theorem covers_iff_exact (p : Partitioning) :
    (p.coversAllRows = true ↔ p.partitions = [] ∨ p.ExactCover) ∧
    (p.coversAllRows = true →
      (∀ part ∈ p.partitions, part.buckets ≠ [] → ∃ r, part.range? = some r ∧
        ∀ id, r.contains id = true ↔ ∃ b ∈ part.buckets, b.range.contains id = true) ∧
      p.partitions.Pairwise fun a b => ∀ r ∈ a.range?, ∀ s ∈ b.range?, ∀ id,
        r.contains id = true → s.contains id = false) := by
  refine ⟨by rw [coversAllRows_iff_tiles, exactCover_iff_tiles], fun hcovers => ?_⟩
  rcases coversAllRows_iff_tiles.1 hcovers with hnone | htiles
  · rw [hnone]
    exact ⟨nofun, .nil⟩
  · obtain ⟨hparts, hpairs⟩ := Partition.tiles_apart htiles
    refine ⟨fun part hpart hne => ?_, hpairs.imp fun hapart r hr s hs id hid => ?_⟩
    · obtain ⟨a, b, _, hpart⟩ := hparts part hpart
      exact Partition.range?_contains hpart hne
    · have hlt := UInt64.lt_iff_toNat_lt.1 (hapart r hr s hs)
      rw [RowRange.contains_eq, decide_eq_true_eq] at hid
      rw [RowRange.contains_eq, decide_eq_false_iff_not]
      omega

/-- partitions under one number, one of them without buckets, and buckets that are not numbered through -/
def unnumbered : Partitioning :=
  ⟨[⟨7, [⟨3, ⟨0, 4⟩⟩, ⟨3, ⟨5, 99⟩⟩]⟩, ⟨7, []⟩, ⟨7, [⟨0, ⟨100, 18446744073709551615⟩⟩]⟩], 0, 0⟩

theorem covers_iff_exact_unnumbered :
    unnumbered.coversAllRows = true ∧ unnumbered.ExactCover ∧
      ∃ r, (Partition.mk 7 [⟨3, ⟨0, 4⟩⟩, ⟨3, ⟨5, 99⟩⟩]).range? = some r ∧ r.contains 42 = true := by
  have h := covers_iff_exact unnumbered
  have hcovers : unnumbered.coversAllRows = true := by decide
  obtain ⟨r, hr, hids⟩ := (h.2 hcovers).1 _ List.mem_cons_self (by decide)
  exact ⟨hcovers, (h.1.1 hcovers).resolve_left (by decide), r, hr, (hids 42).2 (by decide)⟩

end Partitioning

end PartitionedScan
