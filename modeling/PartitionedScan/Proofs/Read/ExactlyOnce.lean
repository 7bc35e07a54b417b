/-
A partitioned read gives every row of the query exactly once.

The estimate decides the split, and the buckets of the split tile the row ids, so the rows of the buckets, one after
another, are the rows of the query over all ids (`slices_of_estimate`). A limit would be applied by each bucket, which is
why such a query is one bucket; a query without rows has no partitions at all. What a bucket hands out is the decoding of
its rows (`Decodes`), and decodings compose, so partitions and whole reads decode what the query gives. The text of a
payload is taken to be read back as the rows it was made of. Main results:
- `prepare_opens`: opening succeeds and plans for the rows that the query has;
- `read_exactly_once`: reading with any number of workers, in any order of their turns, decodes the rows of the query.
-/
import PartitionedScan.Proofs.Read.Interleaving
import PartitionedScan.Proofs.Read.Opening
import PartitionedScan.Proofs.Read.Payload

namespace PartitionedScan

/-! ## Decoding -/

/-- what reading rows comes to: all of them decoded, in order, or the decode error of the first that does not decode -/
def Decodes (schema : Schema) (rows : List JsonRow) (out : Except ReadError (List Row)) : Prop :=
  match rows.mapM schema.decodeRow with
  | .ok decoded => out = .ok decoded
  | .error cause => ∃ partition, out = .error (.decode partition cause)

namespace Decodes

variable {schema : Schema}

theorem nil : Decodes schema [] (.ok []) := rfl

theorem append {xs ys : List JsonRow} {a b : Except ReadError (List Row)} (hx : Decodes schema xs a)
    (hy : Decodes schema ys b) : Decodes schema (xs ++ ys) (a.bind fun rows => b.map (rows ++ ·)) := by
  unfold Decodes at *
  rw [List.mapM_append]
  cases h1 : xs.mapM schema.decodeRow with
  | error cause =>
    rw [h1] at hx
    obtain ⟨partition, rfl⟩ := hx
    exact ⟨partition, rfl⟩
  | ok decoded =>
    rw [h1] at hx
    obtain rfl : a = .ok decoded := hx
    cases h2 : ys.mapM schema.decodeRow with
    | error cause =>
      rw [h2] at hy
      obtain ⟨partition, rfl⟩ := hy
      exact ⟨partition, rfl⟩
    | ok decoded' =>
      rw [h2] at hy
      obtain rfl : b = .ok decoded' := hy
      rfl

/-- rows fail to decode just when one of them does -/
theorem error_iff {rows : List JsonRow} {out : Except ReadError (List Row)} (h : Decodes schema rows out) :
    (∃ partition cause, out = .error (.decode partition cause)) ↔
      ∃ row ∈ rows, ∃ cause, schema.decodeRow row = .error cause := by
  rw [← exists_error_mapM_iff]
  unfold Decodes at h
  cases hm : rows.mapM schema.decodeRow with
  | ok decoded =>
    rw [hm] at h
    simp [show out = .ok decoded from h]
  | error cause =>
    rw [hm] at h
    obtain ⟨partition, rfl⟩ := h
    simp

end Decodes

namespace ReadJob

variable {job : ReadJob} {answer : Query → Except RemoteError String}

theorem decodes_bucket {partition : Nat} {b : Bucket} {payload : String} {rows : List JsonRow}
    (hanswer : answer (job.query.bindRange b.range) = .ok payload) (hpayload : readPayload? payload = some rows) :
    Decodes job.schema rows (job.bucketRows answer partition b) := by
  unfold bucketRows Schema.decodePayload Decodes
  rw [hanswer]
  simp only [hpayload]
  cases rows.mapM job.schema.decodeRow with
  | ok decoded => rfl
  | error cause => exact ⟨partition, rfl⟩

theorem decodes_buckets {partition : Nat} {bs : List Bucket} {rowsOf : RowRange → List JsonRow}
    (h : ∀ b ∈ bs, Decodes job.schema (rowsOf b.range) (job.bucketRows answer partition b)) :
    Decodes job.schema (bs.flatMap fun b => rowsOf b.range) (job.bucketsRows answer partition bs) := by
  induction bs with
  | nil => exact Decodes.nil
  | cons b bs ih =>
    rw [List.forall_mem_cons] at h
    exact h.1.append (ih h.2)

theorem collect_congr {reports reports' : List TaskReport}
    (h : reports.map (fun t => t.outcome.result) = reports'.map fun t => t.outcome.result) :
    collect reports = collect reports' := by
  have (l : List TaskReport) : l.mapM (fun t => t.outcome.result) =
      (l.map fun t => t.outcome.result).mapM id := by
    rw [List.mapM_map]
    rfl
  rw [collect, collect, this, this, h]

theorem collect_eq_map (reports : List TaskReport) :
    collect reports = (reports.mapM fun t : TaskReport => t.outcome.result).map List.flatten := by
  unfold collect
  cases reports.mapM fun t : TaskReport => t.outcome.result <;> rfl

theorem collect_cons (t : TaskReport) (reports : List TaskReport) :
    collect (t :: reports) = t.outcome.result.bind fun rows => (collect reports).map (rows ++ ·) := by
  unfold collect
  rw [List.mapM_cons]
  cases t.outcome.result with
  | error e => rfl
  | ok rows => cases reports.mapM fun t => t.outcome.result <;> rfl

/-- reports that have the rows of their partitions come to the decoding of all rows -/
theorem decodes_collect {ps : List Partition} {reports : List TaskReport} {rowsOf : RowRange → List JsonRow}
    (hreports : reports.map (fun t => t.outcome.result) = ps.map (job.partitionRows answer))
    (h : ∀ p ∈ ps, ∀ b ∈ p.buckets, Decodes job.schema (rowsOf b.range) (job.bucketRows answer p.id b)) :
    Decodes job.schema (ps.flatMap fun p => p.buckets.flatMap fun b => rowsOf b.range) (collect reports) := by
  induction ps generalizing reports with
  | nil =>
    obtain rfl := List.map_eq_nil_iff.1 hreports
    exact Decodes.nil
  | cons p ps ih =>
    rw [List.forall_mem_cons] at h
    obtain ⟨t, rest, rfl, ht, hrest⟩ := List.map_eq_cons_iff.1 hreports
    rw [collect_cons, ht]
    exact (decodes_buckets h.1).append (ih hrest h.2)

end ReadJob

/-! ## Planning -/

namespace Engine

variable {e : Engine} {q : Query} {result : ResultSet}

theorem length_le_of_execute (h : e.execute q .full = .ok result) (hlimit : q.hasLimit = false) :
    ∃ v ∈ e.views, result.rows.length ≤ v.rows.length := by
  obtain ⟨v, hv, hexecute⟩ := e.view_of_execute h
  rw [hexecute] at h
  obtain ⟨image, hrows, _⟩ := rowWise_of_steps (Query.limit_free_of_hasLimit hlimit) h
  refine ⟨v, hv, ?_⟩
  rw [hrows]
  refine (List.length_filterMap_le _ _).trans ?_
  rw [View.rowsIn, List.length_map]
  exact List.length_filter_le _ _

/-- **The buckets of an estimate meet every row once.** -/
theorem slices_of_estimate (h : e.execute q .full = .ok result) (hviews : ∀ v ∈ e.views, v.rows.length < 2 ^ 63)
    (hint : Nat) {batchSize : Nat} (hbatch : 0 < batchSize) :
    (∀ b ∈ (Partitioning.ofEstimate q.hasLimit hint batchSize result.rows.length).buckets,
      e.execute q b.range = .ok { result with rows := e.slice q b.range }) ∧
      (Partitioning.ofEstimate q.hasLimit hint batchSize result.rows.length).buckets.flatMap
        (fun b => e.slice q b.range) = result.rows := by
  by_cases hpos : 0 < result.rows.length
  · rw [← List.flatMap_map (f := Bucket.range), ← List.forall_mem_map (f := Bucket.range)
      (P := fun r => e.execute q r = .ok { result with rows := e.slice q r })]
    cases hlimit : q.hasLimit with
    | true =>
      have hslice : e.slice q .full = result.rows := by rw [slice, h]
      rw [Partitioning.buckets_limited hint batchSize hpos]
      constructor
      · intro r hr
        rw [List.mem_singleton.1 hr, hslice]
        exact h
      · rw [List.flatMap_singleton, hslice]
    | false =>
      obtain ⟨v, hv, hlen⟩ := length_le_of_execute h hlimit
      have hsmall := hviews v hv
      have hfew : result.rows.length ≤ 9223372036854775808 := by omega
      have hroom : ¬ Partitioning.Crowded hint batchSize result.rows.length :=
        Partitioning.not_crowded_of_le hint batchSize hpos hfew
      exact slices_of_tiles h hlimit (Partitioning.tiles_ofEstimate hbatch hpos (by unfold Text.Integer.count64; omega)
        fun _ => hroom)
  · have hnil : result.rows = [] := List.length_eq_zero_iff.1 (by omega)
    rw [hnil]
    exact ⟨fun b hb => (by cases hb), rfl⟩

/-- **Opening succeeds** on an engine that accepts the login, whether the query has rows or not -/
theorem prepare_opens (schema : Schema) (connection : Connection) {settings : ReadSettings}
    (hauth : e.authFailure = none) (hfaults : e.faults = []) (hhint : 1 ≤ settings.numPartitions)
    (hbatch : 1 ≤ settings.batchSize) (h : e.execute q .full = .ok result) :
    ∃ e', ReadJob.prepare remote q schema connection settings e =
        (.ok ⟨.ofEstimate q.hasLimit settings.numPartitions settings.batchSize result.rows.length, q, schema, connection⟩,
          e') ∧ e.Calm e' := by
  obtain ⟨e', hprepare, hviews, hsame⟩ := prepare_eq q schema connection hauth hhint hbatch
  rw [h] at hprepare
  exact ⟨e', hprepare, hviews, hsame.trans hfaults⟩

end Engine

/-! ## Reading -/

/-- **Every row exactly once.** Take an engine without faults that accepts the login, any ids of its rows, and any query
whose conditions mention neither reserved parameter. When the query succeeds over all ids, opening a read of it succeeds
with any hints, and the read has one outcome: exactly the rows of the query decoded, in their order, or the decode error
of the first that does not decode. The sequential read comes to it, and any number of workers with any number of attempts:
every fair schedule comes to an end, and every schedule that comes to an end has that outcome. -/
theorem read_exactly_once (e : Engine) (q : Query) (schema : Schema) (connection : Connection) (settings : ReadSettings)
    (result : ResultSet) (hfaults : e.faults = []) (hauth : e.authFailure = none)
    (hviews : ∀ v ∈ e.views, v.rows.length < 2 ^ 63) (hhint : 1 ≤ settings.numPartitions)
    (hbatch : 1 ≤ settings.batchSize) (hlower : ¬ q.Mentions Query.lowerParam) (hupper : ¬ q.Mentions Query.upperParam)
    (hresult : e.execute q .full = .ok result)
    (hpayload : ∀ rows, rows.Sublist result.rows → (ResultSet.document ⟨result.columns, rows⟩).ReadsBack) :
    ∃ job e' outcome, ReadJob.prepare Engine.remote q schema connection settings e = (.ok job, e') ∧
      Decodes schema result.rows outcome ∧
      ((∃ partition cause, outcome = .error (.decode partition cause)) ↔
        ∃ row ∈ result.rows, ∃ cause, schema.decodeRow row = .error cause) ∧
      ∀ maxAttempts,
        ReadJob.collect (ReadJob.run Engine.remote job maxAttempts job.partitioning.partitions e').1 = outcome ∧
        ∀ workers,
          (∀ schedule, TaskPool.Fair (TaskPool.start workers job.partitioning.partitions e').workers.length schedule →
            ∃ k, (TaskPool.after Engine.remote job maxAttempts job.partitioning.partitions
              (TaskPool.start workers job.partitioning.partitions e') schedule k).Finished) ∧
          ∀ schedule, (TaskPool.run Engine.remote job maxAttempts job.partitioning.partitions
              (TaskPool.start workers job.partitioning.partitions e') schedule).Finished →
            ReadJob.collect (TaskPool.run Engine.remote job maxAttempts job.partitioning.partitions
              (TaskPool.start workers job.partitioning.partitions e') schedule).reports = outcome := by
  obtain ⟨e', hprepare, hcalm⟩ := Engine.prepare_opens schema connection hauth hfaults hhint hbatch hresult
  set job : ReadJob := ⟨.ofEstimate q.hasLimit settings.numPartitions settings.batchSize result.rows.length, q, schema,
    connection⟩
  obtain ⟨hslices, hwhole⟩ := Engine.slices_of_estimate hresult hviews settings.numPartitions hbatch
  have hpartitions : job.partitioning.partitions.flatMap
      (fun p => p.buckets.flatMap fun b => e.slice q b.range) = result.rows := by
    rw [← hwhole, Partitioning.buckets, List.flatMap_assoc]
  have hdecodes : ∀ p ∈ job.partitioning.partitions, ∀ b ∈ p.buckets,
      Decodes schema (e.slice q b.range) (job.bucketRows e.answer p.id b) := by
    intro p hp b hb
    have hmem : b ∈ job.partitioning.buckets := List.mem_flatMap.2 ⟨p, hp, hb⟩
    have hsub : (e.slice q b.range).Sublist result.rows := by
      rw [← hwhole, List.flatMap_def]
      exact List.sublist_flatten_of_mem (List.mem_map_of_mem hmem)
    have hanswer : e.answer (job.query.bindRange b.range) =
        .ok (ResultSet.payload ⟨result.columns, e.slice q b.range⟩) := by
      rw [show job.query = q from rfl, e.answer_bindRange hlower hupper, hslices b hmem]
      rfl
    exact ReadJob.decodes_bucket hanswer (readPayload?_payload (hpayload _ hsub))
  obtain ⟨hsequential, _⟩ := ReadJob.run_steady job e.steady 1 job.partitioning.partitions hcalm
  have hall : Decodes schema result.rows
      (ReadJob.collect (ReadJob.run Engine.remote job 1 job.partitioning.partitions e').1) := by
    have := ReadJob.decodes_collect hsequential hdecodes
    rwa [hpartitions] at this
  refine ⟨job, e', _, hprepare, hall, hall.error_iff, ?_⟩
  intro maxAttempts
  constructor
  · obtain ⟨hagain, _⟩ := ReadJob.run_steady job e.steady maxAttempts job.partitioning.partitions hcalm
    exact ReadJob.collect_congr (hagain.trans hsequential.symm)
  · intro workers
    constructor
    · intro schedule hfair
      exact TaskPool.finishes _ hfair
    · intro schedule hfinished
      have hpool := TaskPool.results_of_run e.steady (fun _ _ => rfl) hcalm workers schedule hfinished
      exact ReadJob.collect_congr (hpool.trans hsequential.symm)

/-- an engine with one view of two rows, whose ids are the least and the greatest -/
def Engine.ofEnds : Engine :=
  ⟨[⟨none, "ends", [], [(0, SortedMap.ofList [("id", .number (.int 1 (by decide))), ("name", .string "Ada")]),
    (18446744073709551615, SortedMap.ofList [("id", .string "2")])], by decide⟩], [], none, ⟨0, 0, 0, 0, 0⟩⟩

def ResultSet.ofEnds : ResultSet :=
  ⟨["id"], [SortedMap.ofList [("id", .number (.int 1 (by decide)))], SortedMap.ofList [("id", .string "2")]]⟩

theorem read_exactly_once_ends :
    Engine.ofEnds.execute ((Query.fromView ⟨none, "ends"⟩).addSelect ["id"]) .full = .ok .ofEnds ∧
      ∃ job e', ReadJob.prepare Engine.remote ((Query.fromView ⟨none, "ends"⟩).addSelect ["id"]) ⟨[⟨"id", .long, false⟩]⟩
          .default ⟨2, 1, none⟩ Engine.ofEnds = (.ok job, e') ∧
        ∀ workers schedule, (TaskPool.run Engine.remote job 3 job.partitioning.partitions
            (TaskPool.start workers job.partitioning.partitions e') schedule).Finished →
          ReadJob.collect (TaskPool.run Engine.remote job 3 job.partitioning.partitions
            (TaskPool.start workers job.partitioning.partitions e') schedule).reports = .ok [⟨[.int 1]⟩, ⟨[.int 2]⟩] := by
  have hresult : Engine.ofEnds.execute ((Query.fromView ⟨none, "ends"⟩).addSelect ["id"]) .full = .ok .ofEnds := by
    decide +kernel
  have hpayload : ∀ rows ∈ ResultSet.ofEnds.rows.sublists,
      (ResultSet.document ⟨ResultSet.ofEnds.columns, rows⟩).ReadsBack := by
    decide +kernel
  have hdecoded : ResultSet.ofEnds.rows.mapM (Schema.decodeRow ⟨[⟨"id", .long, false⟩]⟩) =
      .ok [⟨[.int 1]⟩, ⟨[.int 2]⟩] := by
    decide +kernel
  obtain ⟨job, e', outcome, hprepare, hdecodes, _, hread⟩ :=
    read_exactly_once Engine.ofEnds ((Query.fromView ⟨none, "ends"⟩).addSelect ["id"]) ⟨[⟨"id", .long, false⟩]⟩ .default
      ⟨2, 1, none⟩ .ofEnds rfl rfl (by decide) (by decide) (by decide) (by decide) (by decide) hresult
      fun rows h => hpayload rows (List.mem_sublists.2 h)
  rw [Decodes, hdecoded] at hdecodes
  refine ⟨hresult, job, e', hprepare, ?_⟩
  intro workers schedule hfinished
  obtain ⟨_, hworkers⟩ := hread 3
  obtain ⟨_, hpool⟩ := hworkers workers
  rw [hpool schedule hfinished]
  exact hdecodes

end PartitionedScan
