/-
Reads without partitions.

Opening asks the engine for one estimate. A query without rows has none: the estimate fails with a diagnostic, and opening
knows it by its text (`misread_iff`). The same text may stand in the message of another failure, because messages quote the
plan; then the read of a query that cannot be run opens without partitions. It takes a `$` in the plan, so no other query is
ever taken for one without rows. Main result:
- `opens_empty_iff`: which reads open without partitions, and what becomes of the failures.
-/
import PartitionedScan.Proofs.Complaints
import PartitionedScan.Proofs.Coverage
import PartitionedScan.Proofs.Filter.Evaluation
import PartitionedScan.Proofs.Read.Steady

namespace PartitionedScan

theorem Partitioning.partitions_ofEstimate_eq_nil_iff (limited : Bool) (hint batchSize rows : Nat) :
    (ofEstimate limited hint batchSize rows).partitions = [] ↔ rows = 0 := by
  by_cases hzero : rows = 0
  · simp [ofEstimate, hzero, empty]
  · have hsplit (parts buckets : Nat) (hparts : 0 < parts) : (split .full parts buckets rows batchSize).partitions ≠ [] := by
      intro hnil
      have hlength := congrArg List.length hnil
      rw [split, List.length_map, List.length_zipIdx, RowRange.length_split .full hparts, List.length_nil] at hlength
      omega
    rw [ofEstimate, if_neg hzero]
    simp only [hzero, iff_false]
    split_ifs
    · exact hsplit 1 1 one_pos
    · exact hsplit _ _ (by unfold partitionCount; omega)

namespace RemoteError

/-- the message has the diagnostic of an estimate without rows somewhere -/
def ShowsNoRows (message : String) : Prop :=
  noRowsDiagnostic.toList <:+: message.toList

instance (message : String) : Decidable (ShowsNoRows message) :=
  decidable_of_iff (Text.occursIn noRowsDiagnostic.toList message.toList = true) (Text.occursIn_iff _ _)

theorem classify_eq_noRows_iff (cause : RemoteError) :
    cause.classify = .noRows ↔ ∃ code message, cause = .status code message ∧ ShowsNoRows message := by
  cases cause with
  | status code message =>
    have hclassify : (status code message).classify = .noRows ↔ ShowsNoRows message := by
      rw [classify, ShowsNoRows, ← Text.occursIn_iff]
      split_ifs with hshows <;> simp [hshows]
    simp [hclassify]
  | _ => simp [classify]

/-- the diagnostic has a `$` -/
theorem not_showsNoRows_of_plain {message : String} (h : Plain message) : ¬ ShowsNoRows message := fun hshows =>
  h (hshows.subset (by decide : '$' ∈ noRowsDiagnostic.toList))

end RemoteError

namespace Engine

variable {e : Engine} {q : Query}

/-- **Opening on an engine** that accepts the login comes to what the query comes to over all ids, and changes neither views
nor faults -/
theorem prepare_eq (q : Query) (schema : Schema) (connection : Connection) {settings : ReadSettings}
    (hauth : e.authFailure = none) (hhint : 1 ≤ settings.numPartitions) (hbatch : 1 ≤ settings.batchSize) :
    ∃ e', ReadJob.prepare remote q schema connection settings e =
      (match e.execute q .full with
        | .ok r =>
          .ok ⟨.ofEstimate q.hasLimit settings.numPartitions settings.batchSize r.rows.length, q, schema, connection⟩
        | .error cause =>
          if cause.classify = .noRows then .ok ⟨.empty, q, schema, connection⟩ else .error (.planning q.render cause), e') ∧
      e'.views = e.views ∧ e'.faults = e.faults := by
  have hvalid : settings.validate = .ok () := by
    rw [ReadSettings.validate, if_neg (by omega), if_neg (by omega)]
  have hclassify : noRows.classify = .noRows := by decide
  -- the connection that planning opened is the only change to the engine
  set opened : Engine := { e with stats := { e.stats with opened := e.stats.opened + 1, live := e.stats.live + 1 } }
    with hopened
  have hcheck : opened.check = .good := by rw [check, hopened, hauth]
  have hexecute : opened.execute q .full = e.execute q .full := execute_of_views (by rw [hopened]) q .full
  unfold ReadJob.prepare ReadJob.planOn Remote.plan
  simp only [hvalid, remote, estimate, ← hopened, hcheck, hexecute, ConnectionStatus.good, if_true]
  cases e.execute q .full with
  | error cause =>
    dsimp only
    cases cause.classify <;> exact ⟨_, rfl, rfl, rfl⟩
  | ok r =>
    by_cases hempty : r.rows = []
    · simp only [hempty, List.isEmpty_nil, if_true, hclassify]
      exact ⟨_, rfl, rfl, rfl⟩
    · simp only [List.isEmpty_eq_false_iff.2 hempty]
      exact ⟨_, rfl, rfl, rfl⟩

/-- **Which reads open without partitions.** Take an engine that accepts the login, a query, and hints of at least one. The
read opens without partitions just when the query has no rows over all ids, or cannot be run and is answered with the
diagnostic of an estimate without rows. Any other failure is told, with the query and the cause. A query that has no `$` in
its plan is never answered with the diagnostic, so it opens without partitions just when it has no rows. -/
theorem opens_empty_iff (e : Engine) (q : Query) (schema : Schema) (connection : Connection) (settings : ReadSettings)
    (hauth : e.authFailure = none) (hhint : 1 ≤ settings.numPartitions) (hbatch : 1 ≤ settings.batchSize) :
    ((∃ job, (ReadJob.prepare remote q schema connection settings e).1 = .ok job ∧ job.partitioning.partitions = []) ↔
      (∃ r, e.execute q .full = .ok r ∧ r.rows = []) ∨
        ∃ code message, e.execute q .full = .error (.status code message) ∧ RemoteError.ShowsNoRows message) ∧
    (∀ cause, e.execute q .full = .error cause → ¬ RemoteError.ShowsNoRows cause.message →
      (ReadJob.prepare remote q schema connection settings e).1 = .error (.planning q.render cause)) ∧
    (Plain q.plan.display → ∀ cause, e.execute q .full = .error cause → ¬ RemoteError.ShowsNoRows cause.message) := by
  obtain ⟨e', hprepare, _⟩ := prepare_eq q schema connection hauth hhint hbatch
  rw [hprepare]
  refine ⟨?_, ?_, fun hplain cause hcause => ?_⟩
  · cases e.execute q .full with
    | ok r => simp [Partitioning.partitions_ofEstimate_eq_nil_iff]
    | error cause =>
      have hclassify := cause.classify_eq_noRows_iff
      by_cases hnoRows : cause.classify = .noRows
      · have hshows := hclassify.1 hnoRows
        simpa [hnoRows, Partitioning.empty] using hshows
      · have hnone := mt hclassify.2 hnoRows
        simpa [hnoRows] using hnone
  · intro cause hcause hshows
    have hfatal : cause.classify ≠ .noRows := fun hnoRows => by
      obtain ⟨code, message, rfl, hmessage⟩ := cause.classify_eq_noRows_iff.1 hnoRows
      exact hshows hmessage
    simp only [hcause]
    exact if_neg hfatal
  · exact RemoteError.not_showsNoRows_of_plain (e.execute_unmarked hplain .full cause hcause)

/-- an engine with one view, which has no rows -/
def ofNothing : Engine :=
  { empty with views := [.ofData ⟨none, "t", [], []⟩] }

theorem opens_empty_iff_plain :
    (∃ job, (ReadJob.prepare remote (.fromView ⟨none, "t"⟩) ⟨[]⟩ .default ⟨4, 100, none⟩ ofNothing).1 = .ok job ∧
      job.partitioning.partitions = []) ∧
    (ReadJob.prepare remote (.fromView ⟨none, "u"⟩) ⟨[]⟩ .default ⟨4, 100, none⟩ ofNothing).1 =
      .error (.planning (Query.fromView ⟨none, "u"⟩).render (.status 404 "SQL-TABLENOTFOUND: Unknown table: u")) := by
  have hplain : Plain (Query.fromView ⟨none, "u"⟩).plan.display := by decide +kernel
  have hunknown : ofNothing.execute (.fromView ⟨none, "u"⟩) .full =
      .error (.status 404 "SQL-TABLENOTFOUND: Unknown table: u") := by decide +kernel
  have hnone : ofNothing.execute (.fromView ⟨none, "t"⟩) .full = .ok ⟨[], []⟩ := by decide +kernel
  obtain ⟨_, htold, hnever⟩ :=
    opens_empty_iff ofNothing (.fromView ⟨none, "u"⟩) ⟨[]⟩ .default ⟨4, 100, none⟩ rfl (by decide) (by decide)
  exact ⟨(opens_empty_iff ofNothing (.fromView ⟨none, "t"⟩) ⟨[]⟩ .default ⟨4, 100, none⟩ rfl (by decide) (by decide)).1.2
    (Or.inl ⟨_, hnone, rfl⟩), htold _ hunknown (hnever hplain _ hunknown)⟩

/-- **A view that is not there opens without partitions**, when it is asked for under the diagnostic's own words -/
theorem opens_empty_unknown :
    empty.execute (.fromView ⟨none, "$tableId as xs:string -- Invalid coercion: () as xs:string"⟩) .full =
      .error (.status 404
        "SQL-TABLENOTFOUND: Unknown table: $tableId as xs:string -- Invalid coercion: () as xs:string") ∧
    ∃ job, (ReadJob.prepare remote (.fromView ⟨none, "$tableId as xs:string -- Invalid coercion: () as xs:string"⟩) ⟨[]⟩
        .default ⟨1, 1, none⟩ empty).1 = .ok job ∧ job.partitioning.partitions = [] :=
  ⟨by decide +kernel, _, rfl, rfl⟩

end Engine

end PartitionedScan
