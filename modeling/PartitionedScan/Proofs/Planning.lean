/-
Plans cut the row ids evenly and, unless they are crowded, within the contract of a split.

`EvenCover` is what a reader may rely on: numbered partitions of numbered buckets that meet every id once, in ascending
order, the partitions equally wide up to one id and the buckets of each partition as well. A `Planner` runs the steps of
`Partitioning.ofEstimate` with an arithmetic of its own, which may have no answer: `strict` has none for a split that
breaks the contract, `words` none for a result that does not fit its word. Both come to the plan of `ofEstimate`, or, when
the plan is crowded, to none (`Careful.plan_eq`, `Careful.plan_eq_none`). Main results:
- `plan_covers_evenly`: for an estimate of at most half of the ids, planning cuts evenly and in the numbers that hint and
  batch size ask for;
- `plan_within_contract`: for every estimate, planning stays within the contract just when it is not crowded.
-/
import PartitionedScan.Proofs.Words

namespace PartitionedScan

open Text.Integer (count64)

/-! ## Ranges of partitions -/

namespace RowRange.Tiles

variable {lo hi : Nat} {rs : List RowRange}

theorem head (h : Tiles lo hi rs) (hlt : lo < hi) : ∃ r, rs.head? = some r ∧ r.lower.toNat = lo := by
  cases rs with
  | nil => exact absurd h (Nat.ne_of_lt hlt)
  | cons r rs => exact ⟨r, rfl, h.1⟩

theorem last (h : Tiles lo hi rs) (hlt : lo < hi) : ∃ r, rs.getLast? = some r ∧ r.upper.toNat + 1 = hi := by
  induction rs generalizing lo with
  | nil => exact absurd h (Nat.ne_of_lt hlt)
  | cons r rs ih =>
    obtain ⟨_, _, hrest⟩ := h
    cases rs with
    | nil => exact ⟨r, rfl, hrest⟩
    | cons s rs =>
      obtain ⟨t, ht, hend⟩ := ih hrest (by have := hrest.bounds s List.mem_cons_self; omega)
      exact ⟨t, by rw [List.getLast?_cons_cons, ht], hend⟩

end RowRange.Tiles

namespace Partition

theorem range?_of_tiles {p : Partition} {lo hi : Nat} (h : RowRange.Tiles lo hi (p.buckets.map Bucket.range))
    (hlt : lo < hi) : ∃ r, p.range? = some r ∧ r.lower.toNat = lo ∧ r.upper.toNat + 1 = hi := by
  obtain ⟨r, hr, hlower⟩ := h.head hlt
  obtain ⟨s, hs, hupper⟩ := h.last hlt
  rw [List.head?_map, Option.map_eq_some_iff] at hr
  rw [List.getLast?_map, Option.map_eq_some_iff] at hs
  obtain ⟨first, hfirst, rfl⟩ := hr
  obtain ⟨last, hlast, rfl⟩ := hs
  exact ⟨⟨first.range.lower, last.range.upper⟩, by rw [range?, hfirst, hlast], hlower, hupper⟩

end Partition

namespace Partitioning

theorem coversFrom_iff {next : Nat} {bs : List Bucket} :
    coversFrom next bs = true ↔ RowRange.Tiles next count64 (bs.map Bucket.range) := by
  induction bs generalizing next with
  | nil => simp [coversFrom, RowRange.Tiles]
  | cons b bs ih =>
    simp only [coversFrom, Bool.and_eq_true, beq_iff_eq, decide_eq_true_eq, ih, List.map_cons, RowRange.Tiles,
      UInt64.le_iff_toNat_le, and_assoc]
    constructor
    · rintro ⟨rfl, hle, hrest⟩
      exact ⟨rfl, hle, hrest⟩
    · rintro ⟨rfl, hle, hrest⟩
      exact ⟨rfl, hle, hrest⟩

/-! ## Even covers -/

/-- numbered partitions of numbered buckets that meet every row id once, in ascending and nearly equal pieces -/
structure EvenCover (p : Partitioning) (partitions each : Nat) : Prop where
  ids : p.partitions.map Partition.id = List.range partitions
  indices : ∀ part ∈ p.partitions, part.buckets.map Bucket.index = List.range each
  nonempty : ∀ b ∈ p.buckets, b.range.lower ≤ b.range.upper
  once : ∀ id : UInt64, p.buckets.countP (fun b => b.range.contains id) = 1
  ascending : p.buckets.Pairwise fun a b => a.range.upper < b.range.lower
  covers : p.coversAllRows = true
  spans : ∀ part ∈ p.partitions, ∃ r, part.range? = some r
  evenPartitions : ∀ a ∈ p.partitions, ∀ b ∈ p.partitions, ∀ r ∈ a.range?, ∀ s ∈ b.range?, r.width ≤ s.width + 1
  evenBuckets : ∀ part ∈ p.partitions, ∀ a ∈ part.buckets, ∀ b ∈ part.buckets, a.range.width ≤ b.range.width + 1

theorem number_indices (ranges : List RowRange) : (Bucket.number ranges).map Bucket.index = List.range ranges.length := by
  rw [Bucket.number, List.map_map, List.range_eq_range']
  exact List.zipIdx_map_snd 0 ranges

variable {partitions each rows batchSize : Nat}

theorem mem_split {range : RowRange} {part : Partition}
    (h : part ∈ (split range partitions each rows batchSize).partitions) :
    ∃ r ∈ range.split partitions, part.buckets = Bucket.number (r.split each) := by
  obtain ⟨⟨r, id⟩, hr, rfl⟩ := List.mem_map.1 h
  exact ⟨r, List.fst_mem_of_mem_zipIdx hr, rfl⟩

/-- a partition has the ids of the part that it was made from -/
theorem range?_of_mem_split (hpartitions : 0 < partitions) (heach : 0 < each) (hwidth : partitions ≤ RowRange.full.width)
    (hparts : ∀ part ∈ RowRange.full.split partitions, each ≤ part.width) {part : Partition}
    (h : part ∈ (split .full partitions each rows batchSize).partitions) :
    ∃ r ∈ RowRange.full.split partitions, part.buckets = Bucket.number (r.split each) ∧
      r.lower.toNat ≤ r.upper.toNat ∧ ∃ s, part.range? = some s ∧ s.width = r.width := by
  obtain ⟨r, hr, hbuckets⟩ := mem_split h
  have hle : r.lower.toNat ≤ r.upper.toNat :=
    ((RowRange.tiles_split hpartitions hwidth (by decide)).bounds r hr).2.1
  have htiles := RowRange.tiles_split heach (hparts r hr) hle
  rw [← number_ranges (r.split each), ← hbuckets] at htiles
  obtain ⟨s, hs, hlower, hupper⟩ := Partition.range?_of_tiles htiles (by omega)
  refine ⟨r, hr, hbuckets, hle, s, hs, ?_⟩
  unfold RowRange.width
  omega

/-- **Two splits cut evenly**, if neither is asked for more parts than ids -/
theorem evenCover_split (hpartitions : 0 < partitions) (heach : 0 < each) (hwidth : partitions ≤ RowRange.full.width)
    (hparts : ∀ part ∈ RowRange.full.split partitions, each ≤ part.width) :
    (split .full partitions each rows batchSize).EvenCover partitions each := by
  have htiles : RowRange.Tiles 0 count64 ((split .full partitions each rows batchSize).buckets.map Bucket.range) :=
    tiles_split hpartitions heach hwidth hparts
  have hranges {part : Partition} (h : part ∈ (split .full partitions each rows batchSize).partitions) :=
    range?_of_mem_split hpartitions heach hwidth hparts h
  constructor
  case ids =>
    have hnumbers := List.zipIdx_map_snd 0 (RowRange.full.split partitions)
    rw [RowRange.length_split .full hpartitions] at hnumbers
    rw [split, List.map_map, List.range_eq_range']
    exact hnumbers
  case indices =>
    intro part hpart
    obtain ⟨r, _, hbuckets⟩ := mem_split hpart
    rw [hbuckets, number_indices, RowRange.length_split r heach]
  case nonempty =>
    intro b hb
    exact UInt64.le_iff_toNat_le.2 (htiles.bounds b.range (List.mem_map_of_mem hb)).2.1
  case once =>
    intro id
    have hcount := htiles.countP_contains id
    rwa [List.countP_map, if_pos ⟨Nat.zero_le _, id.toNat_lt⟩] at hcount
  case ascending => exact List.pairwise_map.1 htiles.ascending
  case covers => rw [coversAllRows, coversFrom_iff.2 htiles, Bool.or_true]
  case spans =>
    intro part hpart
    obtain ⟨_, _, _, _, s, hs, _⟩ := hranges hpart
    exact ⟨s, hs⟩
  case evenPartitions =>
    intro a ha b hb r hr s hs
    obtain ⟨ra, hra, _, _, sa, hsa, hwa⟩ := hranges ha
    obtain ⟨rb, hrb, _, _, sb, hsb, hwb⟩ := hranges hb
    obtain rfl : sa = r := Option.some.inj (hsa.symm.trans hr)
    obtain rfl : sb = s := Option.some.inj (hsb.symm.trans hs)
    have hmost := (RowRange.width_split hpartitions hwidth (by decide) hra).2
    have hleast := (RowRange.width_split hpartitions hwidth (by decide) hrb).1
    rw [hwa, hwb]
    omega
  case evenBuckets =>
    intro part hpart a ha b hb
    obtain ⟨r, hr, hbuckets, hle, _⟩ := hranges hpart
    have hrange {c : Bucket} (hc : c ∈ part.buckets) : c.range ∈ r.split each := by
      rw [← number_ranges (r.split each), ← hbuckets]
      exact List.mem_map_of_mem hc
    have hmost := (RowRange.width_split heach (hparts r hr) hle (hrange ha)).2
    have hleast := (RowRange.width_split heach (hparts r hr) hle (hrange hb)).1
    omega

end Partitioning

/-- the first part of all ids has its share of them and no more -/
theorem RowRange.exists_first_split {parts : Nat} (hparts : 0 < parts) (hwidth : parts ≤ RowRange.full.width) :
    ∃ r ∈ RowRange.full.split parts, r.lower.toNat = 0 ∧ r.width = RowRange.full.width / parts := by
  have hstart : RowRange.full.cut parts 0 = 0 := RowRange.cut_zero _ _
  have hstop : RowRange.full.cut parts 1 = RowRange.full.width / parts := by
    rw [RowRange.cut, Nat.mul_one]
    exact Nat.zero_add _
  have hshare : 0 < RowRange.full.width / parts := Nat.div_pos hwidth hparts
  have hmost : RowRange.full.width / parts ≤ count64 := (Nat.div_le_self _ _).trans Partitioning.width_full.le
  refine ⟨⟨UInt64.ofNat (RowRange.full.cut parts 0), UInt64.ofNat (RowRange.full.cut parts 1 - 1)⟩, ?_, ?_, ?_⟩
  · rw [RowRange.split_eq _ hparts]
    exact List.mem_map_of_mem (List.mem_range'_1.2 ⟨le_rfl, by omega⟩)
  · rw [hstart]
    rfl
  · have hlast : RowRange.full.width / parts - 1 < 18446744073709551616 := by
      unfold count64 at hmost
      omega
    rw [RowRange.width, hstart, hstop, RowRange.toNat_ofNat hlast, RowRange.toNat_ofNat (by decide)]
    omega

/-! ## Planners -/

/-- an arithmetic for planning: a division rounded up and a split, either of which may have no answer -/
structure Planner where
  groups : Nat → Nat → Option Nat
  cuts : RowRange → Nat → Option (List RowRange)

namespace Planner

open Partitioning

/-- a range in `partitions` partitions of `each` buckets -/
def partitioning (planner : Planner) (range : RowRange) (partitions each rows batchSize : Nat) : Option Partitioning := do
  let parts ← planner.cuts range partitions
  let ranges ← parts.mapM fun part => planner.cuts part each
  return ⟨ranges.zipIdx.map fun (ranges, id) => ⟨id, Bucket.number ranges⟩, rows, batchSize⟩

/-- the split for an estimate -/
def plan (planner : Planner) (limited : Bool) (hint batchSize rows : Nat) : Option Partitioning :=
  if rows = 0 then some .empty
  else if limited then planner.partitioning .full 1 1 rows batchSize
  else do
    let partitions := partitionCount hint rows
    let each ← planner.groups batchSize (← planner.groups partitions rows)
    planner.partitioning .full partitions (min maxBuckets (max 1 each)) rows batchSize

/-- numbers without a bound -/
def free : Planner := ⟨fun size count => some (groupsOf size count), fun r parts => some (r.split parts)⟩

/-- numbers without a bound, and no split into fewer parts than one or more parts than the range has ids -/
def strict : Planner :=
  ⟨fun size count => some (groupsOf size count),
    fun r parts => if 1 ≤ parts ∧ parts ≤ r.width then some (r.split parts) else none⟩

/-- words of 64 and of 128 bits -/
def words : Planner := ⟨groupsInWords?, RowRange.splitInWords?⟩

/-- an arithmetic with an answer wherever the contract of a split is kept, and with none where a range from id 0 on is
asked for too many parts -/
structure Careful (planner : Planner) : Prop where
  groups : ∀ {size count}, 0 < size → count < count64 → planner.groups size count = some (groupsOf size count)
  cuts : ∀ {r : RowRange} {parts}, 0 < parts → parts < count64 → parts ≤ r.width → r.lower.toNat ≤ r.upper.toNat →
    planner.cuts r parts = some (r.split parts)
  refuses : ∀ {r : RowRange} {parts}, r.lower.toNat = 0 → parts < count64 → r.width < parts →
    planner.cuts r parts = none

theorem strict_careful : strict.Careful where
  groups _ _ := rfl
  cuts hparts _ hwidth _ := if_pos ⟨hparts, hwidth⟩
  refuses _ _ hwidth := if_neg fun h => absurd h.2 (Nat.not_le.2 hwidth)

theorem words_careful : words.Careful where
  groups := groupsInWords?_eq
  cuts := RowRange.splitInWords?_eq
  refuses := RowRange.splitInWords?_eq_none

/-- splits with an answer for the range and for each of its parts make the partitions of `Partitioning.split` -/
theorem partitioning_eq (planner : Planner) {range : RowRange} {partitions each : Nat} (rows batchSize : Nat)
    (hrange : planner.cuts range partitions = some (range.split partitions))
    (hparts : ∀ part ∈ range.split partitions, planner.cuts part each = some (part.split each)) :
    planner.partitioning range partitions each rows batchSize = some (split range partitions each rows batchSize) := by
  rw [partitioning, hrange, Option.bind_eq_bind, Option.bind_some, mapM_eq_some_map hparts, Option.bind_eq_bind,
    Option.bind_some, List.zipIdx_map, List.map_map]
  rfl

/-- without a bound, planning is `ofEstimate` -/
theorem free_plan (limited : Bool) (hint batchSize rows : Nat) :
    free.plan limited hint batchSize rows = some (ofEstimate limited hint batchSize rows) := by
  rw [plan, ofEstimate]
  split_ifs
  · rfl
  · exact free.partitioning_eq rows batchSize rfl fun _ _ => rfl
  · exact free.partitioning_eq rows batchSize rfl fun _ _ => rfl

namespace Careful

variable {planner : Planner} {hint batchSize rows : Nat}

/-- both splits stay within the contract -/
theorem partitioning_eq (careful : planner.Careful) {partitions each : Nat} (hpartitions : 0 < partitions)
    (hwords : partitions < count64) (heach : 0 < each) (hwidth : partitions ≤ RowRange.full.width)
    (hparts : ∀ part ∈ RowRange.full.split partitions, each ≤ part.width) (hfew : each < count64) :
    planner.partitioning .full partitions each rows batchSize = some (split .full partitions each rows batchSize) := by
  refine planner.partitioning_eq rows batchSize (careful.cuts hpartitions hwords hwidth (by decide)) fun part hpart => ?_
  exact careful.cuts heach hfew (hparts part hpart)
    ((RowRange.tiles_split hpartitions hwidth (by decide)).bounds part hpart).2.1

theorem groups_groups (careful : planner.Careful) (hbatch : 0 < batchSize) {partitions : Nat} (hpartitions : 0 < partitions)
    (hrows : rows < count64) :
    (planner.groups partitions rows).bind (planner.groups batchSize) =
      some (groupsOf batchSize (groupsOf partitions rows)) := by
  have hle : groupsOf partitions rows ≤ rows := (groupsOf_le_iff hpartitions).2 (Nat.le_mul_of_pos_left rows hpartitions)
  rw [careful.groups hpartitions hrows, Option.bind_some, careful.groups hbatch (hle.trans_lt hrows)]

theorem bucketCountFor_lt (partitions batchSize rows : Nat) : bucketCountFor partitions batchSize rows < count64 := by
  unfold bucketCountFor maxBuckets count64
  omega

theorem plan_unlimited (careful : planner.Careful) (hbatch : 0 < batchSize) (hpos : 0 < rows) (hrows : rows < count64) :
    planner.plan false hint batchSize rows =
      planner.partitioning .full (partitionCount hint rows) (bucketCountFor (partitionCount hint rows) batchSize rows)
        rows batchSize := by
  have hcount := careful.groups_groups hbatch (partitionCount_bounds hint hpos).1 hrows
  rw [plan, if_neg (by omega), if_neg (by decide)]
  simp only [Option.bind_eq_bind]
  rw [← Option.bind_assoc, hcount, Option.bind_some, bucketCountFor]

/-- **A plan that is not crowded stays within the contract** of a split -/
theorem plan_eq (careful : planner.Careful) {limited : Bool} (hbatch : 0 < batchSize) (hrows : rows < count64)
    (hroom : limited = false → ¬ Crowded hint batchSize rows) :
    planner.plan limited hint batchSize rows = some (ofEstimate limited hint batchSize rows) := by
  rcases Nat.eq_zero_or_pos rows with rfl | hpos
  · rfl
  cases limited with
  | true =>
    rw [plan, if_neg (by omega), ofEstimate_limited hint batchSize hpos]
    exact careful.partitioning_eq one_pos (by decide) one_pos (by decide) (by decide) (by decide)
  | false =>
    obtain ⟨hcount, hle⟩ := partitionCount_bounds hint hpos
    obtain ⟨hwidth, hparts⟩ := bucketCountFor_le_width hbatch hpos hrows (hroom rfl)
    rw [careful.plan_unlimited hbatch hpos hrows, ofEstimate_unlimited hint batchSize hpos]
    exact careful.partitioning_eq hcount (hle.trans_lt hrows) (bucketCountFor_pos _ _ _) hwidth hparts
      (bucketCountFor_lt _ _ _)

/-- **A crowded plan does not**: its first partition starts at id 0 and has fewer ids than buckets -/
theorem plan_eq_none (careful : planner.Careful) (hbatch : 0 < batchSize) (hrows : rows < count64)
    (hcrowded : Crowded hint batchSize rows) : planner.plan false hint batchSize rows = none := by
  have hpos : 0 < rows := (Nat.zero_le _).trans_lt hcrowded.2.2
  obtain ⟨hcount, hle⟩ := partitionCount_bounds hint hpos
  have hwidth : partitionCount hint rows ≤ RowRange.full.width := by
    rw [width_full]
    omega
  have hmany : RowRange.full.width / partitionCount hint rows < bucketCountFor (partitionCount hint rows) batchSize rows := by
    rw [← not_le, bucketCountFor_le_iff hbatch hpos hrows, not_not]
    exact hcrowded
  rw [careful.plan_unlimited hbatch hpos hrows, partitioning, careful.cuts hcount (hle.trans_lt hrows) hwidth (by decide),
    Option.bind_eq_bind, Option.bind_some]
  generalize partitionCount hint rows = partitions at *
  obtain ⟨first, hfirst, hlower, hends⟩ := RowRange.exists_first_split hcount hwidth
  have hnone : planner.cuts first (bucketCountFor partitions batchSize rows) = none :=
    careful.refuses hlower (bucketCountFor_lt _ _ _) (by rwa [hends])
  rw [mapM_eq_none hfirst hnone]
  rfl

end Careful

end Planner

/-! ## The plans of a query -/

namespace Partitioning

variable {hint batchSize rows : Nat}

theorem ofEstimate_sizes (limited : Bool) (hint batchSize : Nat) (hpos : 0 < rows) :
    (ofEstimate limited hint batchSize rows).estimatedRows = rows ∧
      (ofEstimate limited hint batchSize rows).batchSize = batchSize := by
  rw [ofEstimate, if_neg (by omega)]
  split_ifs <;> exact ⟨rfl, rfl⟩

theorem evenCover_limited (hint batchSize : Nat) (hpos : 0 < rows) : (ofEstimate true hint batchSize rows).EvenCover 1 1 := by
  rw [ofEstimate_limited hint batchSize hpos]
  exact evenCover_split one_pos one_pos (by decide) (by decide)

theorem evenCover_unlimited (hbatch : 0 < batchSize) (hpos : 0 < rows) (hrows : rows < count64)
    (hroom : ¬ Crowded hint batchSize rows) :
    (ofEstimate false hint batchSize rows).EvenCover (partitionCount hint rows)
      (bucketCountFor (partitionCount hint rows) batchSize rows) := by
  obtain ⟨hwidth, hparts⟩ := bucketCountFor_le_width hbatch hpos hrows hroom
  rw [ofEstimate_unlimited hint batchSize hpos]
  exact evenCover_split (partitionCount_bounds hint hpos).1 (bucketCountFor_pos _ _ _) hwidth hparts

/-- below the cap, the buckets of a partition hold its rows, and with one bucket less they would not -/
theorem ceilDiv_bounds (hbatch : 0 < batchSize) {count : Nat} (hcount : 0 < count) :
    count ≤ max 1 (count ⌈/⌉ batchSize) * batchSize ∧ (max 1 (count ⌈/⌉ batchSize) - 1) * batchSize < count := by
  have hpos : 0 < count ⌈/⌉ batchSize := by
    rw [← not_le, ceilDiv_le_iff_le_mul hbatch]
    omega
  rw [max_eq_right hpos, Nat.mul_comm, Nat.mul_comm _ batchSize]
  constructor
  · exact (ceilDiv_le_iff_le_mul hbatch).1 le_rfl
  · rw [← not_le, ← ceilDiv_le_iff_le_mul hbatch]
    omega

end Partitioning

/-- **A plan covers the ids evenly.** Take any engine that estimates at least one row and at most half as many as there are
ids. With hints of at least one, planning succeeds, and in words of 64 and 128 bits no step overflows or underflows. A query
with a limit has one partition with one bucket over all ids. Any other query has as many partitions as hinted or as rows,
whichever is less, each with the buckets that hold its rows, at most `maxBuckets`. The buckets meet every id once, in
ascending order, and are equally wide up to one id within a partition, as the partitions are. -/
theorem plan_covers_evenly {σ : Type} (remote : Remote σ) (q : Query) (settings : ReadSettings) (world : σ) (rows : Nat)
    (hhint : 1 ≤ settings.numPartitions) (hbatch : 1 ≤ settings.batchSize)
    (hestimate : (remote.estimate q world).1 = .ok rows) (hpos : 1 ≤ rows) (hrows : rows ≤ 9223372036854775808) :
    ∃ p : Partitioning, remote.plan q settings world = (.ok p, (remote.estimate q world).2) ∧
      Planner.words.plan q.hasLimit settings.numPartitions settings.batchSize rows = some p ∧
      p.estimatedRows = rows ∧ p.batchSize = settings.batchSize ∧
      (q.hasLimit = true → p.EvenCover 1 1 ∧ p.buckets.map Bucket.range = [.full]) ∧
      (q.hasLimit = false → ∃ partitions perPartition each,
        partitions = min settings.numPartitions rows ∧ perPartition = rows ⌈/⌉ partitions ∧
        each = min (max 1 (perPartition ⌈/⌉ settings.batchSize)) 100000 ∧ p.EvenCover partitions each ∧
        (max 1 (perPartition ⌈/⌉ settings.batchSize) ≤ 100000 →
          perPartition ≤ each * settings.batchSize ∧ (each - 1) * settings.batchSize < perPartition)) := by
  have hwords : rows < count64 := by unfold count64; omega
  have hroom : ¬ Partitioning.Crowded settings.numPartitions settings.batchSize rows :=
    Partitioning.not_crowded_of_le _ _ hpos hrows
  have hvalid : settings.validate = .ok () := by
    rw [ReadSettings.validate, if_neg (by omega), if_neg (by omega)]
  refine ⟨.ofEstimate q.hasLimit settings.numPartitions settings.batchSize rows, ?_,
    Planner.words_careful.plan_eq hbatch hwords fun _ => hroom, ?_⟩
  · rw [Remote.plan, hvalid]
    simp only [hestimate]
  obtain ⟨hestimated, hbatches⟩ := Partitioning.ofEstimate_sizes q.hasLimit settings.numPartitions settings.batchSize hpos
  refine ⟨hestimated, hbatches, fun hlimit => ?_, fun hlimit => ?_⟩
  · rw [hlimit]
    exact ⟨Partitioning.evenCover_limited _ _ hpos, Partitioning.buckets_limited _ _ hpos⟩
  · have hcover := Partitioning.evenCover_unlimited hbatch hpos hwords hroom
    have hpartitions : Partitioning.partitionCount settings.numPartitions rows = min settings.numPartitions rows := by
      unfold Partitioning.partitionCount
      omega
    have hper : 0 < rows ⌈/⌉ min settings.numPartitions rows := by
      rw [← not_le, ceilDiv_le_iff_le_mul (by omega)]
      omega
    rw [hpartitions, Partitioning.bucketCountFor, Nat.min_comm Partitioning.maxBuckets] at hcover
    rw [hlimit]
    refine ⟨_, _, _, rfl, rfl, rfl, hcover, fun hcap => ?_⟩
    rw [min_eq_left hcap]
    exact Partitioning.ceilDiv_bounds hbatch hper

/-- an engine of which only the estimate matters -/
def Remote.ofEstimate (rows : Nat) : Remote Unit :=
  ⟨fun _ world => (.ok (), world), fun world => (.good, world), fun _ world => (.ok rows, world),
    fun _ world => (.ok "", world), id, fun _ => 0⟩

theorem plan_covers_evenly_half :
    ∃ p, (Remote.ofEstimate 9223372036854775808).plan (Query.fromView ⟨none, "ids"⟩) ⟨3, 1000000000000000, none⟩ () =
      (.ok p, ()) ∧ p.EvenCover 3 3075 := by
  obtain ⟨p, hplan, _, _, _, _, hunlimited⟩ := plan_covers_evenly (Remote.ofEstimate 9223372036854775808)
    (Query.fromView ⟨none, "ids"⟩) ⟨3, 1000000000000000, none⟩ () 9223372036854775808 (by decide) (by decide) rfl
    (by decide) le_rfl
  obtain ⟨partitions, perPartition, each, rfl, rfl, rfl, hcover, _⟩ := hunlimited rfl
  exact ⟨p, hplan, hcover⟩

/-- **Plans stay within the contract of a split, unless they are crowded.** A planner whose arithmetic has no bounds makes the
plan of `ofEstimate`, so a planner runs its steps. For every estimate of 64 bits and every batch size of at least one: if the
query has a limit or the plan is not crowded, every split is asked for at least one part and for no more parts than its range
has ids, no step overflows or underflows, and no bucket is inverted. A crowded plan of a query without a limit breaks the
contract, and a bound of its first partition underflows. -/
theorem plan_within_contract (limited : Bool) (hint batchSize rows : Nat) (hbatch : 1 ≤ batchSize) (hrows : rows < count64) :
    Planner.free.plan limited hint batchSize rows = some (.ofEstimate limited hint batchSize rows) ∧
    (¬ (limited = false ∧ Partitioning.Crowded hint batchSize rows) →
      Planner.strict.plan limited hint batchSize rows = some (.ofEstimate limited hint batchSize rows) ∧
      Planner.words.plan limited hint batchSize rows = some (.ofEstimate limited hint batchSize rows) ∧
      ∀ b ∈ (Partitioning.ofEstimate limited hint batchSize rows).buckets, b.range.lower ≤ b.range.upper) ∧
    (limited = false ∧ Partitioning.Crowded hint batchSize rows →
      Planner.strict.plan limited hint batchSize rows = none ∧ Planner.words.plan limited hint batchSize rows = none) := by
  refine ⟨Planner.free_plan limited hint batchSize rows, ?_, ?_⟩
  · intro hnot
    have hroom : limited = false → ¬ Partitioning.Crowded hint batchSize rows := fun h hcrowded => hnot ⟨h, hcrowded⟩
    refine ⟨Planner.strict_careful.plan_eq hbatch hrows hroom, Planner.words_careful.plan_eq hbatch hrows hroom, ?_⟩
    rcases Nat.eq_zero_or_pos rows with rfl | hpos
    · exact fun b hb => by cases hb
    · have htiles := Partitioning.tiles_ofEstimate hbatch hpos hrows hroom
      intro b hb
      exact UInt64.le_iff_toNat_le.2 (htiles.bounds b.range (List.mem_map_of_mem hb)).2.1
  · rintro ⟨rfl, hcrowded⟩
    exact ⟨Planner.strict_careful.plan_eq_none hbatch hrows hcrowded,
      Planner.words_careful.plan_eq_none hbatch hrows hcrowded⟩

/-- two rows to a bucket are enough, even for the largest hint and estimate -/
theorem plan_within_contract_largest :
    Planner.strict.plan false 9223372036854775807 2 18446744073709551615 =
      some (.ofEstimate false 9223372036854775807 2 18446744073709551615) :=
  ((plan_within_contract false 9223372036854775807 2 18446744073709551615 (by decide) (by decide)).2.1 (by decide)).1

/-- **One row to a bucket is not.** At the least crowded hint for the largest estimate the first partition has 99999 ids and is
asked for 100000 buckets; so is a later one, and there a bucket ends before it starts. -/
theorem plan_crowded_first :
    Planner.strict.plan false 184467440737096 1 18446744073709551615 = none ∧
      Partitioning.bucketCountFor (Partitioning.partitionCount 184467440737096 18446744073709551615) 1
        18446744073709551615 = 100000 ∧
      (⟨0, 99998⟩ : RowRange) ∈ RowRange.full.split (Partitioning.partitionCount 184467440737096 18446744073709551615) ∧
      (⟨0, 99998⟩ : RowRange).width = 99999 ∧
      (⟨381257111299999, 381257111299998⟩ : RowRange) ∈
        (Partitioning.ofEstimate false 184467440737096 1 18446744073709551615).buckets.map Bucket.range := by
  have hcount : Partitioning.partitionCount 184467440737096 18446744073709551615 = 184467440737096 := by decide
  have hbuckets : Partitioning.bucketCountFor 184467440737096 1 18446744073709551615 = 100000 := by decide
  have hfirst : (⟨0, 99998⟩ : RowRange) ∈ RowRange.full.split 184467440737096 := by
    rw [RowRange.split_eq _ (by decide)]
    exact List.mem_map.2 ⟨0, List.mem_range'_1.2 ⟨by decide, by decide⟩, by decide⟩
  have hlater : (⟨381257111299999, 381257111399997⟩ : RowRange) ∈ RowRange.full.split 184467440737096 := by
    rw [RowRange.split_eq _ (by decide)]
    exact List.mem_map.2 ⟨3812571113, List.mem_range'_1.2 ⟨by decide, by decide⟩, by decide⟩
  have hinverted : (⟨381257111299999, 381257111299998⟩ : RowRange) ∈
      (⟨381257111299999, 381257111399997⟩ : RowRange).split 100000 := by
    rw [RowRange.split_eq _ (by decide)]
    exact List.mem_map.2 ⟨0, List.mem_range'_1.2 ⟨by decide, by decide⟩, by decide⟩
  have hnone : Planner.strict.plan false 184467440737096 1 18446744073709551615 = none :=
    Planner.strict_careful.plan_eq_none (by decide) (by decide) (by decide)
  rw [Partitioning.ofEstimate_unlimited _ _ (by decide), hcount, hbuckets, Partitioning.buckets_split]
  exact ⟨hnone, rfl, hfirst, by decide, List.mem_flatMap.2 ⟨_, hlater, hinverted⟩⟩

end PartitionedScan
