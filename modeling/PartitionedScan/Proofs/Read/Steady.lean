/-
Reading from a remote whose answers do not change.

`Steady` says that in every calm world connections open and a fetch is answered by the query alone, whatever else has
happened; an engine without faults is steady as long as its views stay. Then the rows of a partition are a function of
the partition (`partitionRows`): what a reader still has to hand out is its `rest`, each `advance` takes one row off it,
and neither the world nor what other readers do to it shows. Main results:
- `Reader.advance_steady`: one row handed out, the end, or the error that the rest comes to;
- `attempt_steady`, `runTask_steady`: an attempt, and a task with any number of attempts, come to `partitionRows`.
-/
import PartitionedScan.Proofs.Slices
import PartitionedScan.Read.Task

namespace PartitionedScan

variable {σ : Type}

/-- in calm worlds every connection opens and fetches are answered by their queries alone; calm worlds stay calm -/
structure Steady (remote : Remote σ) (calm : σ → Prop) (answer : Query → Except RemoteError String) : Prop where
  connect : ∀ c world, calm world → (remote.connect c world).1 = .ok () ∧ calm (remote.connect c world).2
  fetch : ∀ q world, calm world → (remote.fetch q world).1 = answer q ∧ calm (remote.fetch q world).2
  release : ∀ world, calm world → calm (remote.release world)

namespace Engine

/-- the engine still serves the views and has no faults -/
def Calm (e e' : Engine) : Prop :=
  e'.views = e.views ∧ e'.faults = []

theorem execute_of_views {e e' : Engine} (h : e'.views = e.views) (q : Query) (range : RowRange) :
    e'.execute q range = e.execute q range := by
  simp only [execute, findView, h]

theorem steady (e : Engine) : Steady remote e.Calm e.answer where
  connect _ _ h := ⟨rfl, h⟩
  release _ h := h
  fetch q e' h := by
    obtain ⟨hviews, hfaults⟩ := h
    simp only [remote, fetch, answer]
    cases requestedRange q with
    | error cause => exact ⟨rfl, hviews, hfaults⟩
    | ok range =>
      simp only [hfaults, takeFault, Except.bind]
      rw [execute_of_views (e := e) (by exact hviews)]
      cases e.execute q range with
      | error cause => exact ⟨rfl, hviews, rfl⟩
      | ok r => exact ⟨rfl, hviews, rfl⟩

end Engine

/-! ## What there is to read -/

namespace ReadJob

/-- the rows of a bucket, from the answer to its fetch -/
def bucketRows (job : ReadJob) (answer : Query → Except RemoteError String) (partition : Nat) (b : Bucket) :
    Except ReadError (List Row) :=
  match answer (job.query.bindRange b.range) with
  | .error e => .error (.fetch partition b.index e)
  | .ok payload =>
    match job.schema.decodePayload payload with
    | .error e => .error (.decode partition e)
    | .ok rows => .ok rows

/-- the rows of buckets one after another, or the first error -/
def bucketsRows (job : ReadJob) (answer : Query → Except RemoteError String) (partition : Nat) :
    List Bucket → Except ReadError (List Row)
  | [] => .ok []
  | b :: bs =>
    (job.bucketRows answer partition b).bind fun rows => (bucketsRows job answer partition bs).map (rows ++ ·)

/-- the rows of a partition, or its error -/
def partitionRows (job : ReadJob) (answer : Query → Except RemoteError String) (p : Partition) :
    Except ReadError (List Row) :=
  job.bucketsRows answer p.id p.buckets

/-- the number of rows that a bucket hands out -/
def bucketSize (job : ReadJob) (answer : Query → Except RemoteError String) (partition : Nat) (b : Bucket) : Nat :=
  ((job.bucketRows answer partition b).toOption.getD []).length

end ReadJob

namespace Reader

/-- what a reader with these buckets to come still hands out, or the error it meets -/
def restOver (job : ReadJob) (answer : Query → Except RemoteError String) (pending : List Bucket) (r : Reader) :
    Except ReadError (List Row) :=
  (job.bucketsRows answer r.partition pending).map (r.buffer ++ ·)

/-- what a reader still hands out, or the error it meets -/
def rest (job : ReadJob) (answer : Query → Except RemoteError String) (r : Reader) : Except ReadError (List Row) :=
  r.restOver job answer r.pending

/-- an upper bound for the calls of `advance` up to the end, with these buckets to come -/
def turnsOver (job : ReadJob) (answer : Query → Except RemoteError String) (pending : List Bucket) (r : Reader) : Nat :=
  r.buffer.length + (pending.map (job.bucketSize answer r.partition)).sum + 1

/-- an upper bound for the calls of `advance` up to the end -/
def turns (job : ReadJob) (answer : Query → Except RemoteError String) (r : Reader) : Nat :=
  r.turnsOver job answer r.pending

/-- neither at the end nor closed -/
def Live (r : Reader) : Prop :=
  r.phase = .awaitingBucket ∨ r.phase = .iteratingRows

variable {remote : Remote σ} {calm : σ → Prop} {answer : Query → Except RemoteError String} {job : ReadJob}

/-- what an answer of `advance` says about what there was to read -/
def Accounts (job : ReadJob) (answer : Query → Except RemoteError String) (before : Except ReadError (List Row))
    (turns : Nat) : Except ReadError (Option Row) → Reader → Prop
  | .ok (some row), r => before = (r.rest job answer).map (row :: ·) ∧ r.Live ∧ r.turns job answer < turns
  | .ok none, _ => before = .ok []
  | .error e, _ => before = .error e

/-- a fetch gives the rows of its bucket and leaves the place of the reader alone -/
theorem fetch_steady (steady : Steady remote calm answer) (b : Bucket) (r : Reader) {world : σ} (hcalm : calm world)
    {result : Except ReadError (List Row)} {r' : Reader} {world' : σ}
    (h : r.fetch remote job b world = (result, r', world')) :
    result = job.bucketRows answer r.partition b ∧ r'.partition = r.partition ∧ calm world' := by
  unfold fetch connect at h
  have hconnect : (if r.connected then (.ok (), world) else remote.connect job.connection world).1 = .ok () ∧
      calm (if r.connected then ((.ok () : Except RemoteError Unit), world) else remote.connect job.connection world).2 := by
    split_ifs
    · exact ⟨rfl, hcalm⟩
    · exact steady.connect _ _ hcalm
  generalize (if r.connected then ((.ok () : Except RemoteError Unit), world) else remote.connect job.connection world) =
    opened at h hconnect
  obtain ⟨status, world1⟩ := opened
  obtain ⟨rfl, hcalm1⟩ := hconnect
  simp only at h
  obtain ⟨hanswer, hcalm2⟩ := steady.fetch (job.query.bindRange b.range) world1 hcalm1
  unfold ReadJob.bucketRows
  rw [← hanswer]
  generalize remote.fetch (job.query.bindRange b.range) world1 = fetched at h hcalm2 ⊢
  obtain ⟨payload, world2⟩ := fetched
  cases payload with
  | error e => cases h; exact ⟨rfl, rfl, hcalm2⟩
  | ok payload =>
    simp only at h ⊢
    cases hrows : job.schema.decodePayload payload with
    | error e => rw [hrows] at h; cases h; exact ⟨rfl, rfl, hcalm2⟩
    | ok rows => rw [hrows] at h; cases h; exact ⟨rfl, rfl, hcalm2⟩

theorem restOver_nil (r : Reader) : r.restOver job answer [] = .ok r.buffer := by
  simp [restOver, ReadJob.bucketsRows, Except.map]

/-- what is left once the first bucket was fetched -/
theorem restOver_of_bucket {b : Bucket} {bs : List Bucket} {r r' : Reader} {rows : List Row} (hbuffer : r.buffer = [])
    (hpartition : r'.partition = r.partition) (hrows : job.bucketRows answer r.partition b = .ok rows) :
    r.restOver job answer (b :: bs) = { r' with buffer := rows }.restOver job answer bs := by
  simp only [restOver, ReadJob.bucketsRows, hbuffer, hpartition, hrows, Except.bind]
  cases job.bucketsRows answer r.partition bs <;> rfl

theorem advanceOver_steady (steady : Steady remote calm answer) (pending : List Bucket) (r : Reader) {world : σ}
    (hcalm : calm world) {result : Except ReadError (Option Row)} {r' : Reader} {world' : σ}
    (h : r.advanceOver remote job pending world = (result, r', world')) :
    Accounts job answer (r.restOver job answer pending) (r.turnsOver job answer pending) result r' ∧
      r'.partition = r.partition ∧ calm world' := by
  induction pending generalizing r world with
  | nil =>
    unfold advanceOver at h
    cases hbuffer : r.buffer with
    | nil =>
      rw [hbuffer] at h
      cases h
      exact ⟨by rw [restOver_nil, hbuffer]; rfl, rfl, hcalm⟩
    | cons row buffer =>
      rw [hbuffer] at h
      cases h
      refine ⟨⟨?_, Or.inr rfl, ?_⟩, rfl, hcalm⟩
      · rw [rest, restOver_nil, restOver_nil, hbuffer]; rfl
      · simp [turns, turnsOver, hbuffer]
  | cons b bs ih =>
    unfold advanceOver at h
    cases hbuffer : r.buffer with
    | cons row buffer =>
      rw [hbuffer] at h
      cases h
      refine ⟨⟨?_, Or.inr rfl, ?_⟩, rfl, hcalm⟩
      · simp only [rest, restOver, hbuffer]
        cases job.bucketsRows answer r.partition (b :: bs) <;> rfl
      · simp [turns, turnsOver, hbuffer]
    | nil =>
      rw [hbuffer] at h
      simp only at h
      cases hfetch : r.fetch remote job b world with
      | mk fetched later =>
        obtain ⟨r1, world1⟩ := later
        rw [hfetch] at h
        obtain ⟨hrows, hpartition, hcalm1⟩ := fetch_steady steady b r hcalm hfetch
        cases fetched with
        | error e =>
          cases h
          refine ⟨?_, hpartition, hcalm1⟩
          simp only [Accounts, restOver, ReadJob.bucketsRows, ← hrows]
          rfl
        | ok rows =>
          obtain ⟨haccounts, hpartition', hcalm'⟩ := ih { r1 with buffer := rows } hcalm1 h
          rw [restOver_of_bucket hbuffer hpartition hrows.symm]
          have hturns : { r1 with buffer := rows }.turnsOver job answer bs = r.turnsOver job answer (b :: bs) := by
            simp only [turnsOver, hbuffer, hpartition, List.map_cons, List.sum_cons, ReadJob.bucketSize, ← hrows]
            simp [Except.toOption]
          rw [← hturns]
          exact ⟨haccounts, hpartition'.trans hpartition, hcalm'⟩

/-- **One call of `advance`** hands out the first row of what is left, tells that nothing is left, or fails with the error
that the rest comes to. -/
theorem advance_steady (steady : Steady remote calm answer) {r : Reader} (hlive : r.Live) {world : σ}
    (hcalm : calm world) {result : Except ReadError (Option Row)} {r' : Reader} {world' : σ}
    (h : r.advance remote job world = (result, r', world')) :
    Accounts job answer (r.rest job answer) (r.turns job answer) result r' ∧ r'.partition = r.partition ∧ calm world' := by
  refine advanceOver_steady steady r.pending r hcalm ?_
  unfold advance at h
  rcases hlive with hphase | hphase <;> rwa [hphase] at h

theorem close_calm (steady : Steady remote calm answer) (r : Reader) {world : σ} (hcalm : calm world) :
    calm (r.close remote world).2.2 := by
  unfold close
  split_ifs
  · exact hcalm
  · exact steady.release world hcalm
  · exact hcalm

/-- reading to the end is one call of `advance`, and after a row reading on -/
theorem drain_eq (remote : Remote σ) (job : ReadJob) (r : Reader) (world : σ) :
    r.drain remote job world =
      match r.advance remote job world with
      | (.error e, r', world') => ([], some e, r', world')
      | (.ok none, r', world') => ([], none, r', world')
      | (.ok (some row), r', world') =>
        let (rows, e, r, world) := r'.drain remote job world'
        (row :: rows, e, r, world) := by
  rw [drain]
  split <;> rename_i hadvance <;> simp only [hadvance]

theorem drain_steady (steady : Steady remote calm answer) {r : Reader} (hlive : r.Live) {world : σ} (hcalm : calm world)
    {rows : List Row} {error : Option ReadError} {r' : Reader} {world' : σ}
    (h : r.drain remote job world = (rows, error, r', world')) :
    error.elim (.ok rows) .error = r.rest job answer ∧ calm world' := by
  induction hn : r.turns job answer using Nat.strong_induction_on generalizing r world rows error r' world' with
  | _ n ih =>
    rw [drain_eq] at h
    split at h
    · next e r1 world1 hadvance =>
      cases h
      obtain ⟨haccounts, _, hcalm'⟩ := advance_steady steady hlive hcalm hadvance
      exact ⟨haccounts.symm, hcalm'⟩
    · next r1 world1 hadvance =>
      cases h
      obtain ⟨haccounts, _, hcalm'⟩ := advance_steady steady hlive hcalm hadvance
      exact ⟨haccounts.symm, hcalm'⟩
    · next row r1 world1 hadvance =>
      obtain ⟨⟨hrest, hlive', hturns⟩, _, hcalm'⟩ := advance_steady steady hlive hcalm hadvance
      cases hdrain : r1.drain remote job world1 with
      | mk rows' later =>
        obtain ⟨error', r2, world2⟩ := later
        simp only [hdrain] at h
        cases h
        obtain ⟨hall, hcalm2⟩ := ih _ (hn ▸ hturns) hlive' hcalm' hdrain rfl
        refine ⟨?_, hcalm2⟩
        rw [hrest, ← hall]
        cases error <;> rfl

theorem rest_ofPartition (p : Partition) : (ofPartition p).rest job answer = job.partitionRows answer p := by
  simp only [rest, restOver, ofPartition, ReadJob.partitionRows, List.nil_append]
  cases job.bucketsRows answer p.id p.buckets <;> rfl

theorem live_ofPartition (p : Partition) : (ofPartition p).Live :=
  Or.inl rfl

end Reader

/-! ## Attempts and tasks -/

namespace ReadJob

variable {remote : Remote σ} {calm : σ → Prop} {answer : Query → Except RemoteError String} {job : ReadJob}

/-- **An attempt comes to the rows of its partition**, or to their error -/
theorem attempt_steady (job : ReadJob) (steady : Steady remote calm answer) (p : Partition) {world : σ} (hcalm : calm world) :
    (attempt remote job p world).1 = job.partitionRows answer p ∧ calm (attempt remote job p world).2.2 := by
  unfold attempt
  generalize hdrain : (Reader.ofPartition p).drain remote job world = drained
  obtain ⟨rows, error, r, world1⟩ := drained
  obtain ⟨hall, hcalm1⟩ := Reader.drain_steady steady (Reader.live_ofPartition p) hcalm hdrain
  rw [Reader.rest_ofPartition] at hall
  refine ⟨?_, Reader.close_calm steady r hcalm1⟩
  rw [← hall]
  cases error <;> rfl

theorem runTaskFrom_steady (job : ReadJob) (steady : Steady remote calm answer) (p : Partition) (made more : Nat) {world : σ}
    (hcalm : calm world) :
    (runTaskFrom remote job p made more world).1.outcome.partition = p.id ∧
      (runTaskFrom remote job p made more world).1.outcome.result = job.partitionRows answer p ∧
      calm (runTaskFrom remote job p made more world).2 := by
  induction more generalizing made world with
  | zero =>
    obtain ⟨hrows, hcalm'⟩ := attempt_steady job steady p hcalm
    unfold runTaskFrom
    generalize attempt remote job p world = made at hrows hcalm' ⊢
    obtain ⟨result, metrics, world1⟩ := made
    cases result with
    | ok rows => exact ⟨rfl, hrows, hcalm'⟩
    | error e => exact ⟨rfl, hrows, hcalm'⟩
  | succ more ih =>
    obtain ⟨hrows, hcalm'⟩ := attempt_steady job steady p hcalm
    unfold runTaskFrom
    generalize attempt remote job p world = first at hrows hcalm' ⊢
    obtain ⟨result, metrics, world1⟩ := first
    cases result with
    | ok rows => exact ⟨rfl, hrows, hcalm'⟩
    | error e =>
      simp only
      split_ifs
      · exact ih (made + 1) hcalm'
      · exact ⟨rfl, hrows, hcalm'⟩

/-- **Tasks come to the rows of their partitions**, one after another and with any number of attempts -/
theorem run_steady (job : ReadJob) (steady : Steady remote calm answer) (maxAttempts : Nat) (ps : List Partition) {world : σ}
    (hcalm : calm world) :
    (run remote job maxAttempts ps world).1.map (fun t => t.outcome.result) = ps.map (job.partitionRows answer) ∧
      calm (run remote job maxAttempts ps world).2 := by
  induction ps generalizing world with
  | nil => exact ⟨rfl, hcalm⟩
  | cons p ps ih =>
    obtain ⟨_, hrows, hcalm1⟩ := runTaskFrom_steady job steady p 0 (maxAttempts - 1) hcalm
    obtain ⟨hrest, hcalm2⟩ := ih hcalm1
    rw [run]
    simp only [List.map_cons]
    exact ⟨by rw [← hrows, ← hrest]; rfl, hcalm2⟩

end ReadJob

end PartitionedScan
