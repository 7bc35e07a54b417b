/-
Ranges that meet every row id once.

`Tiles lo hi` says that ranges, one after another, are the ids from `lo` up to `hi` without `hi`: the next range starts
where the one before ends, and none is inverted. A split tiles its range as long as it has no more parts than ids, and
every part has its share of the width or one id more. `Partitioning.ofEstimate` splits twice, into partitions and each of
them into buckets. It asks a partition for more buckets than ids just when the plan is `Crowded`; otherwise all buckets
together tile the ids of 64 bits. Main results:
- `RowRange.tiles_split`, `RowRange.width_split`: one split;
- `Partitioning.bucketCountFor_le_iff`: when a partition has an id for each of its buckets;
- `Partitioning.tiles_ofEstimate`: both splits.
-/
import Mathlib.Algebra.Order.Floor.Div
import Mathlib.Tactic
import PartitionedScan.Read.Planning

namespace PartitionedScan

namespace RowRange

/-- the ranges are the ids from `lo` up to `hi` without `hi`, in order -/
def Tiles : Nat → Nat → List RowRange → Prop
  | lo, hi, [] => lo = hi
  | lo, hi, r :: rs => r.lower.toNat = lo ∧ lo ≤ r.upper.toNat ∧ Tiles (r.upper.toNat + 1) hi rs

theorem toNat_ofNat {n : Nat} (h : n < 18446744073709551616) : (UInt64.ofNat n).toNat = n :=
  UInt64.toNat_ofNat_of_lt' h

theorem contains_eq (r : RowRange) (id : UInt64) :
    r.contains id = decide (r.lower.toNat ≤ id.toNat ∧ id.toNat < r.upper.toNat + 1) := by
  rw [contains, Bool.eq_iff_iff, Bool.and_eq_true, decide_eq_true_eq, decide_eq_true_eq, decide_eq_true_eq,
    UInt64.le_iff_toNat_le, UInt64.le_iff_toNat_le, Nat.lt_succ_iff]

namespace Tiles

theorem le {lo hi : Nat} {rs : List RowRange} (h : Tiles lo hi rs) : lo ≤ hi := by
  induction rs generalizing lo with
  | nil => exact Nat.le_of_eq h
  | cons r rs ih =>
    obtain ⟨_, h1, h2⟩ := h
    have := ih h2
    omega

theorem append {lo mid hi : Nat} {rs ss : List RowRange} (h1 : Tiles lo mid rs) (h2 : Tiles mid hi ss) :
    Tiles lo hi (rs ++ ss) := by
  induction rs generalizing lo with
  | nil =>
    obtain rfl : lo = mid := h1
    exact h2
  | cons r rs ih =>
    obtain ⟨hlower, hle, hrest⟩ := h1
    exact ⟨hlower, hle, ih hrest⟩

theorem bounds {lo hi : Nat} {rs : List RowRange} (h : Tiles lo hi rs) :
    ∀ r ∈ rs, lo ≤ r.lower.toNat ∧ r.lower.toNat ≤ r.upper.toNat ∧ r.upper.toNat < hi := by
  induction rs generalizing lo with
  | nil => exact fun r hr => by cases hr
  | cons r rs ih =>
    obtain ⟨rfl, hle, hrest⟩ := h
    refine List.forall_mem_cons.2 ⟨⟨le_rfl, hle, hrest.le⟩, fun s hs => ?_⟩
    obtain ⟨h1, h2, h3⟩ := ih hrest s hs
    exact ⟨by omega, h2, h3⟩

theorem ascending {lo hi : Nat} {rs : List RowRange} (h : Tiles lo hi rs) :
    rs.Pairwise fun a b => a.upper < b.lower := by
  induction rs generalizing lo with
  | nil => exact .nil
  | cons r rs ih =>
    obtain ⟨_, _, hrest⟩ := h
    refine List.pairwise_cons.2 ⟨fun s hs => ?_, ih hrest⟩
    exact UInt64.lt_iff_toNat_lt.2 (hrest.bounds s hs).1

theorem countP_contains {lo hi : Nat} {rs : List RowRange} (h : Tiles lo hi rs) (id : UInt64) :
    rs.countP (fun r => r.contains id) = if lo ≤ id.toNat ∧ id.toNat < hi then 1 else 0 := by
  induction rs generalizing lo with
  | nil =>
    obtain rfl : lo = hi := h
    rw [List.countP_nil, if_neg (by omega)]
  | cons r rs ih =>
    obtain ⟨rfl, hle, hrest⟩ := h
    have hend := hrest.le
    rw [List.countP_cons, ih hrest, contains_eq]
    simp only [decide_eq_true_eq]
    split_ifs <;> omega

/-- tiles cut into tiles of their own are tiles -/
theorem flatMap {lo hi : Nat} {rs : List RowRange} (h : Tiles lo hi rs) {cut : RowRange → List RowRange}
    (hcut : ∀ r ∈ rs, r.lower.toNat ≤ r.upper.toNat → Tiles r.lower.toNat (r.upper.toNat + 1) (cut r)) :
    Tiles lo hi (rs.flatMap cut) := by
  induction rs generalizing lo with
  | nil => exact h
  | cons r rs ih =>
    obtain ⟨rfl, hle, hrest⟩ := h
    rw [List.forall_mem_cons] at hcut
    exact (hcut.1 hle).append (ih hrest hcut.2)

/-- cuts that never stand still tile what lies between the first and the last -/
theorem of_cuts {f : Nat → Nat} (hlt : ∀ i, f i < f (i + 1)) {k n : Nat} (hmax : f (k + n) ≤ Text.Integer.count64) :
    Tiles (f k) (f (k + n))
      ((List.range' k n).map fun i => ⟨UInt64.ofNat (f i), UInt64.ofNat (f (i + 1) - 1)⟩) := by
  induction n generalizing k with
  | zero => rfl
  | succ n ih =>
    have hmono := strictMono_nat_of_lt_succ hlt
    have hk : f k < f (k + 1) := hlt k
    have hnext : f (k + 1) ≤ f (k + (n + 1)) := hmono.monotone (by omega)
    rw [show k + (n + 1) = k + 1 + n by omega] at hmax hnext ⊢
    unfold Text.Integer.count64 at hmax
    rw [List.range'_succ, List.map_cons]
    have hlower : (UInt64.ofNat (f k)).toNat = f k := toNat_ofNat (by omega)
    have hupper : (UInt64.ofNat (f (k + 1) - 1)).toNat = f (k + 1) - 1 := toNat_ofNat (by omega)
    refine ⟨hlower, ?_, ?_⟩
    · simp only [hupper]
      omega
    · simp only [hupper]
      rw [Nat.sub_add_cancel (by omega)]
      exact ih (by unfold Text.Integer.count64; omega)

end Tiles

/-! ## One split -/

variable {r : RowRange} {parts : Nat}

theorem cut_zero (r : RowRange) (parts : Nat) : r.cut parts 0 = r.lower.toNat := by
  rw [cut, Nat.mul_zero, Nat.zero_div, Nat.add_zero]

theorem cut_last (r : RowRange) (hparts : 0 < parts) (hle : r.lower.toNat ≤ r.upper.toNat) :
    r.cut parts parts = r.upper.toNat + 1 := by
  rw [cut, Nat.mul_div_cancel _ hparts, width]
  omega

theorem cut_mono (r : RowRange) (parts : Nat) : Monotone (r.cut parts) := by
  intro i j h
  exact Nat.add_le_add_left (Nat.div_le_div_right (Nat.mul_le_mul_left _ h)) _

theorem cut_le (r : RowRange) (hparts : 0 < parts) (hle : r.lower.toNat ≤ r.upper.toNat) {i : Nat} (hi : i ≤ parts) :
    r.cut parts i ≤ r.upper.toNat + 1 :=
  (r.cut_mono parts hi).trans (r.cut_last hparts hle).le

theorem cut_add_share_le (r : RowRange) (parts i : Nat) : r.cut parts i + r.width / parts ≤ r.cut parts (i + 1) := by
  unfold cut
  have h : r.width * i / parts + r.width / parts ≤ (r.width * i + r.width) / parts := Nat.div_add_div_le_add_div
  rw [Nat.mul_succ]
  omega

/-- no part has more than one id beyond its share -/
theorem cut_succ_le (r : RowRange) (parts i : Nat) : r.cut parts (i + 1) ≤ r.cut parts i + r.width / parts + 1 := by
  unfold cut
  have h : (r.width * i + r.width) / parts ≤ r.width * i / parts + r.width / parts + 1 :=
    Nat.add_div_le_div_add_div_add_one _ _ _
  rw [Nat.mul_succ]
  omega

theorem cut_lt (hparts : 0 < parts) (hwidth : parts ≤ r.width) (i : Nat) : r.cut parts i < r.cut parts (i + 1) := by
  have hshare : 0 < r.width / parts := Nat.div_pos hwidth hparts
  have := r.cut_add_share_le parts i
  omega

theorem split_eq (r : RowRange) (hparts : 0 < parts) :
    r.split parts = (List.range' 0 parts).map fun i =>
      ⟨UInt64.ofNat (r.cut parts i), UInt64.ofNat (r.cut parts (i + 1) - 1)⟩ := by
  rw [split, Nat.max_eq_left hparts, List.range_eq_range']

theorem length_split (r : RowRange) (hparts : 0 < parts) : (r.split parts).length = parts := by
  rw [split_eq r hparts, List.length_map, List.length_range']

/-- **A split tiles its range**, if it has parts at all and no more of them than the range has ids -/
theorem tiles_split (hparts : 0 < parts) (hwidth : parts ≤ r.width) (hle : r.lower.toNat ≤ r.upper.toNat) :
    Tiles r.lower.toNat (r.upper.toNat + 1) (r.split parts) := by
  have hlast := r.cut_last hparts hle
  have h := Tiles.of_cuts (f := r.cut parts) (k := 0) (n := parts) (cut_lt hparts hwidth) (by
    rw [Nat.zero_add, hlast]
    exact r.upper.toNat_lt)
  rw [Nat.zero_add, cut_zero, hlast] at h
  rwa [split_eq r hparts]

theorem ends_of_mem_split (hparts : 0 < parts) (hwidth : parts ≤ r.width) (hle : r.lower.toNat ≤ r.upper.toNat)
    {s : RowRange} (hs : s ∈ r.split parts) :
    ∃ i < parts, s.lower.toNat = r.cut parts i ∧ s.upper.toNat + 1 = r.cut parts (i + 1) := by
  rw [split_eq r hparts] at hs
  obtain ⟨i, hi, rfl⟩ := List.mem_map.1 hs
  have hi : i < parts := by simpa using hi
  have hupper : r.cut parts (i + 1) ≤ r.upper.toNat + 1 := r.cut_le hparts hle hi
  have hlt := cut_lt (r := r) hparts hwidth i
  have hmax := r.upper.toNat_lt
  refine ⟨i, hi, toNat_ofNat (by omega), ?_⟩
  rw [toNat_ofNat (by omega)]
  omega

/-- each part of a split has its share of the width, or one id more -/
theorem width_split (hparts : 0 < parts) (hwidth : parts ≤ r.width) (hle : r.lower.toNat ≤ r.upper.toNat) {s : RowRange}
    (hs : s ∈ r.split parts) : r.width / parts ≤ s.width ∧ s.width ≤ r.width / parts + 1 := by
  obtain ⟨i, _, hlower, hupper⟩ := ends_of_mem_split hparts hwidth hle hs
  have hleast := r.cut_add_share_le parts i
  have hmost := r.cut_succ_le parts i
  rw [show s.width = s.upper.toNat + 1 - s.lower.toNat from rfl, hlower, hupper]
  generalize r.width / parts = share at hleast hmost ⊢
  omega

end RowRange

/-! ## Partitions and buckets -/

namespace Partitioning

theorem number_ranges (ranges : List RowRange) : (Bucket.number ranges).map Bucket.range = ranges := by
  rw [Bucket.number, List.map_map]
  exact List.zipIdx_map_fst 0 ranges

theorem buckets_split (range : RowRange) (partitions buckets rows batchSize : Nat) :
    (split range partitions buckets rows batchSize).buckets.map Bucket.range =
      (range.split partitions).flatMap fun part => part.split buckets := by
  simp only [Partitioning.buckets, split, List.flatMap_map, List.map_flatMap, number_ranges]
  have h := List.flatMap_map (l := (range.split partitions).zipIdx) Prod.fst fun part : RowRange => part.split buckets
  rw [List.zipIdx_map_fst] at h
  exact h.symm

theorem groupsOf_le_iff {size : Nat} (hsize : 0 < size) {count groups : Nat} :
    groupsOf size count ≤ groups ↔ count ≤ size * groups :=
  ceilDiv_le_iff_le_mul hsize

theorem partitionCount_bounds (hint : Nat) {rows : Nat} (hpos : 0 < rows) :
    0 < partitionCount hint rows ∧ partitionCount hint rows ≤ rows := by
  unfold partitionCount
  omega

theorem bucketCountFor_pos (partitions batchSize rows : Nat) : 0 < bucketCountFor partitions batchSize rows := by
  unfold bucketCountFor maxBuckets
  omega

/-- with one row to a bucket, a partition has more rows than its share of the ids, and the cap on buckets lies beyond -/
def Crowded (hint batchSize rows : Nat) : Prop :=
  batchSize = 1 ∧ RowRange.full.width / partitionCount hint rows < maxBuckets ∧
    partitionCount hint rows * (RowRange.full.width / partitionCount hint rows) < rows

instance (hint batchSize rows : Nat) : Decidable (Crowded hint batchSize rows) :=
  inferInstanceAs (Decidable (_ ∧ _ ∧ _))

theorem width_full : RowRange.full.width = Text.Integer.count64 := by decide

/-- **No partition is asked for more buckets than its share of the ids**, just when the plan is not crowded -/
theorem bucketCountFor_le_iff {hint batchSize rows : Nat} (hbatch : 0 < batchSize) (hpos : 0 < rows)
    (hrows : rows < Text.Integer.count64) :
    bucketCountFor (partitionCount hint rows) batchSize rows ≤ RowRange.full.width / partitionCount hint rows ↔
      ¬ Crowded hint batchSize rows := by
  unfold Crowded
  obtain ⟨hcount, hle⟩ := partitionCount_bounds hint hpos
  rw [width_full]
  generalize partitionCount hint rows = partitions at hcount hle ⊢
  have hshare : 0 < Text.Integer.count64 / partitions := Nat.div_pos (by omega) hcount
  have hbeyond : rows < partitions * (Text.Integer.count64 / partitions + 1) :=
    hrows.trans (Nat.lt_mul_div_succ _ hcount)
  generalize Text.Integer.count64 / partitions = share at hshare hbeyond ⊢
  rw [bucketCountFor, min_le_iff, max_le_iff, groupsOf_le_iff hbatch, groupsOf_le_iff hcount]
  by_cases hone : batchSize = 1
  · rw [hone, Nat.one_mul]
    omega
  · -- two rows to a bucket leave room for one row beyond the share
    have hroom : partitions * (share + 1) ≤ partitions * (batchSize * share) := by
      apply Nat.mul_le_mul_left
      calc share + 1 ≤ 2 * share := by omega
        _ ≤ batchSize * share := Nat.mul_le_mul_right share (by omega)
    constructor
    · intro _ hcrowded
      exact hone hcrowded.1
    · intro _
      exact Or.inr ⟨hshare, (hbeyond.trans_le hroom).le⟩

/-- an estimate of at most half of the ids crowds no plan -/
theorem not_crowded_of_le (hint batchSize : Nat) {rows : Nat} (hpos : 0 < rows) (hrows : rows ≤ 9223372036854775808) :
    ¬ Crowded hint batchSize rows := by
  rintro ⟨_, _, hlt⟩
  obtain ⟨hcount, hle⟩ := partitionCount_bounds hint hpos
  have hbeyond := Nat.lt_mul_div_succ RowRange.full.width hcount
  rw [Nat.mul_succ] at hbeyond
  rw [width_full] at hlt hbeyond
  unfold Text.Integer.count64 at hlt hbeyond
  omega

/-- no split of a plan that is not crowded is asked for more parts than its range has ids -/
theorem bucketCountFor_le_width {hint batchSize rows : Nat} (hbatch : 0 < batchSize) (hpos : 0 < rows)
    (hrows : rows < Text.Integer.count64) (hroom : ¬ Crowded hint batchSize rows) :
    partitionCount hint rows ≤ RowRange.full.width ∧ ∀ part ∈ RowRange.full.split (partitionCount hint rows),
      bucketCountFor (partitionCount hint rows) batchSize rows ≤ part.width := by
  obtain ⟨hcount, hle⟩ := partitionCount_bounds hint hpos
  have hparts : partitionCount hint rows ≤ RowRange.full.width := by rw [width_full]; omega
  refine ⟨hparts, fun part hpart => ?_⟩
  exact ((bucketCountFor_le_iff hbatch hpos hrows).2 hroom).trans
    (RowRange.width_split hcount hparts (by decide) hpart).1

/-- **Two splits tile the ids**, if neither is asked for more parts than ids -/
theorem tiles_split {partitions buckets rows batchSize : Nat} (hpartitions : 0 < partitions) (hbuckets : 0 < buckets)
    (hwidth : partitions ≤ RowRange.full.width)
    (hparts : ∀ part ∈ RowRange.full.split partitions, buckets ≤ part.width) :
    RowRange.Tiles 0 Text.Integer.count64 ((split .full partitions buckets rows batchSize).buckets.map Bucket.range) := by
  rw [buckets_split]
  refine (RowRange.tiles_split (r := .full) hpartitions hwidth (by decide)).flatMap fun part hpart hle => ?_
  exact RowRange.tiles_split hbuckets (hparts part hpart) hle

theorem ofEstimate_limited (hint batchSize : Nat) {rows : Nat} (hpos : 0 < rows) :
    ofEstimate true hint batchSize rows = split .full 1 1 rows batchSize := by
  rw [ofEstimate, if_neg (by omega), if_pos rfl]

theorem ofEstimate_unlimited (hint batchSize : Nat) {rows : Nat} (hpos : 0 < rows) :
    ofEstimate false hint batchSize rows = split .full (partitionCount hint rows)
      (bucketCountFor (partitionCount hint rows) batchSize rows) rows batchSize := by
  rw [ofEstimate, if_neg (by omega), if_neg Bool.false_ne_true]

/-- **The buckets tile the ids.** Unless the plan is crowded, the buckets of all partitions are all ids of 64 bits, one
after another. -/
theorem tiles_ofEstimate {limited : Bool} {hint batchSize rows : Nat} (hbatch : 0 < batchSize) (hpos : 0 < rows)
    (hrows : rows < Text.Integer.count64) (hroom : limited = false → ¬ Crowded hint batchSize rows) :
    RowRange.Tiles 0 Text.Integer.count64 ((ofEstimate limited hint batchSize rows).buckets.map Bucket.range) := by
  cases limited with
  | true =>
    rw [ofEstimate_limited hint batchSize hpos]
    exact tiles_split one_pos one_pos (by decide) (by decide)
  | false =>
    obtain ⟨hwidth, hparts⟩ := bucketCountFor_le_width hbatch hpos hrows (hroom rfl)
    rw [ofEstimate_unlimited hint batchSize hpos]
    exact tiles_split (partitionCount_bounds hint hpos).1 (bucketCountFor_pos _ _ _) hwidth hparts

/-- a query with a limit is one bucket over all ids -/
theorem buckets_limited (hint batchSize : Nat) {rows : Nat} (hpos : 0 < rows) :
    (ofEstimate true hint batchSize rows).buckets.map Bucket.range = [.full] := by
  rw [ofEstimate_limited hint batchSize hpos, buckets_split]
  rfl

end Partitioning

end PartitionedScan
