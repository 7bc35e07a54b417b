/-
A failing partition never affects its siblings.

An engine refuses fetches by a list of faults, searched from the front and used up one by one, which all tasks share. A
fault concerns a partition when its range has the lower bound of one of its buckets; what the task of a partition sees of
the list are the faults that concern it (`takeFault_concerning`). When no fault concerns two partitions the fetches of one
task leave alone what the others see (`takeFault_others`), so tasks are isolated, and every interleaving of their calls
comes to what they come to alone. Main results:
- `isolates`: over an engine whose faults are apart tasks are isolated;
- `ReadJob.collect_eq_error_iff`: what is collected fails with the first error in the order of the partitions;
- `partitions_isolated`: every schedule has the reports of the tasks run alone.
-/
import PartitionedScan.Proofs.Read.ExactlyOnce
import PartitionedScan.Proofs.Read.Interleaving

namespace PartitionedScan

/-! ## Faults -/

/-- the fault may refuse a bucket of the partition -/
def Fault.concerns (p : Partition) (f : Fault) : Bool :=
  p.buckets.any fun b => f.range.contains b.range.lower

/-- no fault concerns two of the partitions -/
def FaultsApart (ps : List Partition) (faults : List Fault) : Prop :=
  ∀ f ∈ faults, ps.Pairwise fun p q => ¬ (f.concerns p = true ∧ f.concerns q = true)

instance (ps : List Partition) (faults : List Fault) : Decidable (FaultsApart ps faults) :=
  inferInstanceAs (Decidable (∀ f ∈ faults, ps.Pairwise fun p q => ¬ (f.concerns p = true ∧ f.concerns q = true)))

theorem Fault.concerns_of_contains {f : Fault} {p : Partition} {b : Bucket} (hb : b ∈ p.buckets)
    (h : f.range.contains b.range.lower = true) : f.concerns p = true :=
  List.any_eq_true.2 ⟨b, hb, h⟩

theorem Fault.concerns_congr {f g : Fault} (h : f.range = g.range) (p : Partition) : f.concerns p = g.concerns p := by
  rw [concerns, concerns, h]

theorem FaultsApart.eq_of_concerns {ps : List Partition} {faults : List Fault} (h : FaultsApart ps faults) {f : Fault}
    (hf : f ∈ faults) {i j : Nat} {p q : Partition} (hp : ps[i]? = some p) (hq : ps[j]? = some q)
    (hconcerns : f.concerns p = true) (hconcerns' : f.concerns q = true) : i = j := by
  obtain ⟨hi, rfl⟩ := List.getElem?_eq_some_iff.1 hp
  obtain ⟨hj, rfl⟩ := List.getElem?_eq_some_iff.1 hq
  have hpairs := List.pairwise_iff_getElem.1 (h f hf)
  rcases Nat.lt_trichotomy i j with hlt | heq | hlt
  · exact absurd ⟨hconcerns, hconcerns'⟩ (hpairs i j hi hj hlt)
  · exact heq
  · exact absurd ⟨hconcerns', hconcerns⟩ (hpairs j i hj hi hlt)

namespace Engine

/-- **A task sees the faults that concern its partition**: the others neither refuse its fetches nor are used up by them -/
theorem takeFault_concerning {p : Partition} {b : Bucket} (hb : b ∈ p.buckets) (faults : List Fault) :
    takeFault b.range.lower (faults.filter (Fault.concerns p)) =
      (takeFault b.range.lower faults).map fun taken => (taken.1, taken.2.filter (Fault.concerns p)) := by
  induction faults with
  | nil => rfl
  | cons f rest ih =>
    rw [takeFault]
    by_cases hconcerns : f.concerns p = true
    · rw [List.filter_cons_of_pos hconcerns, takeFault]
      split_ifs
      · rw [Option.map_some, List.filter_cons_of_pos (by exact hconcerns)]
      · rw [ih, Option.map_map, Option.map_map]
        refine Option.map_congr fun taken _ => ?_
        rw [Function.comp_apply, Function.comp_apply, List.filter_cons_of_pos hconcerns]
    · -- no fetch of the task starts in the range of the fault, so it is passed over
      have hmiss : (decide (0 < f.remaining) && f.range.contains b.range.lower) ≠ true := fun h =>
        hconcerns (Fault.concerns_of_contains hb (Bool.and_eq_true .. ▸ h).2)
      rw [List.filter_cons_of_neg hconcerns, if_neg hmiss, ih, Option.map_map]
      refine Option.map_congr fun taken _ => ?_
      rw [Function.comp_apply, List.filter_cons_of_neg hconcerns]

/-- faults are used up, never added or moved -/
theorem range_of_takeFault {lower : UInt64} {faults faults' : List Fault} {message : String}
    (h : takeFault lower faults = some (message, faults')) :
    faults'.map Fault.range = faults.map Fault.range := by
  induction faults generalizing faults' with
  | nil => cases h
  | cons f rest ih =>
    rw [takeFault] at h
    split_ifs at h
    · cases h
      rfl
    · obtain ⟨⟨_, rest'⟩, hrest, heq⟩ := Option.map_eq_some_iff.1 h
      cases heq
      rw [List.map_cons, List.map_cons, ih hrest]

theorem faultsApart_of_range {ps : List Partition} {faults faults' : List Fault}
    (h : faults'.map Fault.range = faults.map Fault.range) (hapart : FaultsApart ps faults) : FaultsApart ps faults' := by
  intro f hf
  obtain ⟨g, hg, hrange⟩ := List.mem_map.1 (h ▸ List.mem_map_of_mem hf : f.range ∈ faults.map Fault.range)
  refine (hapart g hg).imp fun happart hboth => happart ?_
  rwa [Fault.concerns_congr hrange, Fault.concerns_congr hrange]

/-- **A fetch of one task does not show to another**: it leaves alone the faults that concern another partition -/
theorem takeFault_others {ps : List Partition} {faults faults' : List Fault} (hapart : FaultsApart ps faults) {i j : Nat}
    {p q : Partition} (hp : ps[i]? = some p) (hq : ps[j]? = some q) (hne : i ≠ j) {b : Bucket} (hb : b ∈ q.buckets)
    {message : String} (h : takeFault b.range.lower faults = some (message, faults')) :
    faults'.filter (Fault.concerns p) = faults.filter (Fault.concerns p) := by
  induction faults generalizing faults' with
  | nil => cases h
  | cons f rest ih =>
    rw [takeFault] at h
    split_ifs at h with htaken
    · cases h
      have hconcerns' : f.concerns q = true := Fault.concerns_of_contains hb (Bool.and_eq_true .. ▸ htaken).2
      have hconcerns : ¬ f.concerns p = true := fun hconcerns =>
        hne (hapart.eq_of_concerns List.mem_cons_self hp hq hconcerns hconcerns')
      rw [List.filter_cons_of_neg hconcerns, List.filter_cons_of_neg (by exact hconcerns)]
    · obtain ⟨⟨_, rest'⟩, hrest, heq⟩ := Option.map_eq_some_iff.1 h
      cases heq
      have hsame := ih (fun g hg => hapart g (List.mem_cons_of_mem f hg)) hrest
      rw [List.filter_cons, List.filter_cons, hsame]

/-! ## Isolation -/

/-- what the task of partition `i` sees of an engine whose faults are apart: the views, and the faults that concern it -/
structure Alike (ps : List Partition) (i : Nat) (e e' : Engine) : Prop where
  views : e'.views = e.views
  faults : ∀ p, ps[i]? = some p → e'.faults.filter (Fault.concerns p) = e.faults.filter (Fault.concerns p)
  apart : FaultsApart ps e'.faults

theorem Alike.refl {ps : List Partition} {e : Engine} (hapart : FaultsApart ps e.faults) (i : Nat) : Alike ps i e e :=
  ⟨rfl, fun _ _ => rfl, hapart⟩

/-- connections and counters do not show -/
theorem Alike.of_same {ps : List Partition} {i : Nat} {e e' f f' : Engine} (h : Alike ps i e e') (hviews : f.views = e.views)
    (hfaults : f.faults = e.faults) (hviews' : f'.views = e'.views) (hfaults' : f'.faults = e'.faults) :
    Alike ps i f f' where
  views := by rw [hviews, hviews', h.views]
  faults p hp := by rw [hfaults, hfaults', h.faults p hp]
  apart := hfaults' ▸ h.apart

/-- the faults after a fetch that starts at `lower` -/
def faultsAfter (lower : UInt64) (faults : List Fault) : List Fault :=
  ((takeFault lower faults).map Prod.snd).getD faults

/-- **A fetch** is refused by a fault or answered from the views, and changes nothing but faults and counters -/
theorem fetch_bindRange (q : Query) (range : RowRange) (e : Engine) :
    (fetch (q.bindRange range) e).1 =
        (match (takeFault range.lower e.faults).map Prod.fst with
          | some message => .error (.status 503 message)
          | none => (e.execute (q.bindRange range) range).map ResultSet.payload) ∧
      (fetch (q.bindRange range) e).2.views = e.views ∧
      (fetch (q.bindRange range) e).2.faults = faultsAfter range.lower e.faults := by
  unfold fetch faultsAfter
  rw [requestedRange_bindRange]
  dsimp only
  cases takeFault range.lower e.faults with
  | some taken => exact ⟨rfl, rfl, rfl⟩
  | none =>
    have hexecute : { e with stats := { e.stats with fetches := e.stats.fetches + 1 } }.execute (q.bindRange range) range =
        e.execute (q.bindRange range) range := execute_of_views rfl _ _
    dsimp only
    rw [hexecute]
    cases e.execute (q.bindRange range) range with
    | error cause => exact ⟨rfl, rfl, rfl⟩
    | ok r => exact ⟨rfl, rfl, rfl⟩

theorem faultsAfter_concerning {p : Partition} {b : Bucket} (hb : b ∈ p.buckets) (faults : List Fault) :
    faultsAfter b.range.lower (faults.filter (Fault.concerns p)) =
      (faultsAfter b.range.lower faults).filter (Fault.concerns p) := by
  rw [faultsAfter, faultsAfter, takeFault_concerning hb]
  cases takeFault b.range.lower faults <;> rfl

theorem faultsApart_after {ps : List Partition} {faults : List Fault} (hapart : FaultsApart ps faults) (lower : UInt64) :
    FaultsApart ps (faultsAfter lower faults) := by
  rw [faultsAfter]
  cases h : takeFault lower faults with
  | none => exact hapart
  | some taken => exact faultsApart_of_range (range_of_takeFault h) hapart

theorem Alike.fetch_own {ps : List Partition} {i : Nat} {p : Partition} {e e' : Engine} (h : Alike ps i e e')
    (hp : ps[i]? = some p) {b : Bucket} (hb : b ∈ p.buckets) (q : Query) :
    (fetch (q.bindRange b.range) e).1 = (fetch (q.bindRange b.range) e').1 ∧
      Alike ps i (fetch (q.bindRange b.range) e).2 (fetch (q.bindRange b.range) e').2 := by
  obtain ⟨hanswer, hviews, hfaults⟩ := fetch_bindRange q b.range e
  obtain ⟨hanswer', hviews', hfaults'⟩ := fetch_bindRange q b.range e'
  have hconcerning := h.faults p hp
  have hmessage : (takeFault b.range.lower e'.faults).map Prod.fst = (takeFault b.range.lower e.faults).map Prod.fst := by
    have hboth := congrArg (fun faults => (takeFault b.range.lower faults).map Prod.fst) hconcerning
    simp only [takeFault_concerning hb, Option.map_map] at hboth
    exact hboth
  refine ⟨?_, hviews'.trans (h.views.trans hviews.symm), fun p' hp' => ?_, ?_⟩
  · rw [hanswer, hanswer', hmessage, execute_of_views h.views]
  · rw [hp] at hp'
    cases hp'
    rw [hfaults, hfaults', ← faultsAfter_concerning hb, ← faultsAfter_concerning hb, hconcerning]
  · rw [hfaults']
    exact faultsApart_after h.apart _

theorem Alike.fetch_other {ps : List Partition} {i j : Nat} {p : Partition} {e e' : Engine} (h : Alike ps i e e')
    (hne : i ≠ j) (hp : ps[j]? = some p) {b : Bucket} (hb : b ∈ p.buckets) (q : Query) :
    Alike ps i e (fetch (q.bindRange b.range) e').2 := by
  obtain ⟨_, hviews, hfaults⟩ := fetch_bindRange q b.range e'
  refine ⟨hviews.trans h.views, fun p' hp' => ?_, ?_⟩
  · rw [hfaults, ← h.faults p' hp', faultsAfter]
    cases htaken : takeFault b.range.lower e'.faults with
    | none => rfl
    | some taken => exact takeFault_others h.apart hp' hp hne hb htaken
  · rw [hfaults]
    exact faultsApart_after h.apart _

/-- **Tasks are isolated** over an engine whose faults are apart -/
theorem isolates (job : ReadJob) (ps : List Partition) : remote.Isolates job ps (Alike ps) where
  own i p hp :=
    { connect := fun _ _ _ h => ⟨rfl, h.of_same rfl rfl rfl rfl⟩
      fetch := by
        rintro q e e' ⟨b, hb, rfl⟩ h
        exact h.fetch_own hp hb job.query
      release := fun _ _ h => h.of_same rfl rfl rfl rfl
      clock := fun _ _ _ => rfl }
  others i j p e hne hp :=
    { connect := fun _ _ h => h.of_same rfl rfl rfl rfl
      fetch := by
        rintro q e' ⟨b, hb, rfl⟩ h
        exact h.fetch_other hne hp hb job.query
      release := fun _ h => h.of_same rfl rfl rfl rfl }

end Engine

/-! ## Outcomes -/

namespace ReadJob

variable {σ : Type}

theorem partition_runTaskFrom (remote : Remote σ) (job : ReadJob) (p : Partition) (made more : Nat) (world : σ) :
    (runTaskFrom remote job p made more world).1.outcome.partition = p.id := by
  induction more generalizing made world with
  | zero =>
    unfold runTaskFrom
    rcases attempt remote job p world with ⟨_ | _, _, _⟩ <;> rfl
  | succ more ih =>
    unfold runTaskFrom
    rcases attempt remote job p world with ⟨e | _, _, world'⟩
    · simp only
      split_ifs
      · exact ih (made + 1) world'
      · rfl
    · rfl

theorem partition_runTask (remote : Remote σ) (job : ReadJob) (maxAttempts : Nat) (p : Partition) (world : σ) :
    (runTask remote job maxAttempts p world).1.outcome.partition = p.id :=
  partition_runTaskFrom remote job p 0 (maxAttempts - 1) world

/-- **The rows collected** are those of all partitions, if all were read -/
theorem collect_eq_ok_iff {reports : List TaskReport} {rows : List Row} :
    collect reports = .ok rows ↔
      ∃ parts : List (List Row), reports.map (fun t => t.outcome.result) = parts.map .ok ∧ rows = parts.flatten := by
  have hparts (parts : List (List Row)) : (reports.mapM fun t => t.outcome.result) = .ok parts ↔
      reports.map (fun t => t.outcome.result) = parts.map .ok := by
    have hsame : List.Forall₂ Eq (reports.map fun t => t.outcome.result) (parts.map .ok) ↔
        reports.map (fun t => t.outcome.result) = parts.map .ok := by rw [List.forall₂_eq_eq_eq]
    rw [mapM_eq_ok_iff, ← hsame, List.forall₂_map_left_iff, List.forall₂_map_right_iff]
  rw [collect_eq_map, map_eq_ok_iff]
  simp only [hparts, eq_comm (a := rows)]

/-- **The error collected** is the first in the order of the partitions -/
theorem collect_eq_error_iff {reports : List TaskReport} {e : ReadError} :
    collect reports = .error e ↔
      ∃ before t after, reports = before ++ t :: after ∧ (∀ s ∈ before, ∃ rows, s.outcome.result = .ok rows) ∧
        t.outcome.result = .error e := by
  rw [← mapM_eq_error_iff, ← errorOf?_eq_some_iff, ← errorOf?_eq_some_iff, collect_eq_map, errorOf?_map]

/-- what reports say of the partitions when none of them was affected by another: each is about its partition and is what a
task alone with the engine reports, and what is collected are all rows in order, or the error of the first partition that
fails alone -/
structure Isolated (job : ReadJob) (maxAttempts : Nat) (ps : List Partition) (e : Engine) (reports : List TaskReport) :
    Prop where
  partitions : reports.map (fun t => t.outcome.partition) = ps.map Partition.id
  alone : reports = ps.map fun p => (runTask Engine.remote job maxAttempts p e).1
  rows : ∀ rows, collect reports = .ok rows ↔ ∃ parts : List (List Row),
    ps.map (fun p => (runTask Engine.remote job maxAttempts p e).1.outcome.result) = parts.map .ok ∧ rows = parts.flatten
  error : ∀ cause, collect reports = .error cause ↔ ∃ before p after, ps = before ++ p :: after ∧
    (∀ q ∈ before, ∃ rows, (runTask Engine.remote job maxAttempts q e).1.outcome.result = .ok rows) ∧
    (runTask Engine.remote job maxAttempts p e).1.outcome.result = .error cause

theorem isolated_of_alone {job : ReadJob} {maxAttempts : Nat} {ps : List Partition} {e : Engine}
    {reports : List TaskReport} (h : reports = ps.map fun p => (runTask Engine.remote job maxAttempts p e).1) :
    Isolated job maxAttempts ps e reports where
  partitions := by
    rw [h, List.map_map]
    exact List.map_congr_left fun p _ => partition_runTask Engine.remote job maxAttempts p e
  alone := h
  rows rows := by
    rw [collect_eq_ok_iff, h, List.map_map]
    rfl
  error cause := by
    rw [collect_eq_error_iff, h]
    constructor
    · rintro ⟨before, t, after, hsplit, hbefore, ht⟩
      obtain ⟨front, rest, rfl, rfl, hrest⟩ := List.map_eq_append_iff.1 hsplit
      obtain ⟨p, back, rfl, rfl, rfl⟩ := List.map_eq_cons_iff.1 hrest
      exact ⟨front, p, back, rfl, fun q hq => hbefore _ (List.mem_map_of_mem hq), ht⟩
    · rintro ⟨front, p, back, rfl, hfront, hp⟩
      refine ⟨_, _, _, List.map_append, fun s hs => ?_, hp⟩
      obtain ⟨q, hq, rfl⟩ := List.mem_map.1 hs
      exact hfront q hq

end ReadJob

/-- **A failing partition never affects its siblings.** Take any engine whose faults are apart, any job over it, and any
number of workers and of attempts. Every fair schedule comes to an end, and every schedule that comes to an end, wherever
the calls of the tasks were mixed, has the reports that each task comes to alone with the engine and all its faults; so has
the sequential read. -/
theorem partitions_isolated (job : ReadJob) (maxAttempts : Nat) (ps : List Partition) (e : Engine)
    (hapart : FaultsApart ps e.faults) :
    ReadJob.Isolated job maxAttempts ps e (ReadJob.run Engine.remote job maxAttempts ps e).1 ∧
      ∀ workers,
        (∀ schedule, TaskPool.Fair (TaskPool.start workers ps e).workers.length schedule →
          ∃ k, (TaskPool.after Engine.remote job maxAttempts ps (TaskPool.start workers ps e) schedule k).Finished) ∧
        ∀ schedule, (TaskPool.run Engine.remote job maxAttempts ps (TaskPool.start workers ps e) schedule).Finished →
          ReadJob.Isolated job maxAttempts ps e
            (TaskPool.run Engine.remote job maxAttempts ps (TaskPool.start workers ps e) schedule).reports := by
  have hsame : ∀ i < ps.length, Engine.Alike ps i e e := fun i _ => .refl hapart i
  refine ⟨ReadJob.isolated_of_alone (ReadJob.run_alone (Engine.isolates job ps) hsame), fun workers => ⟨?_, ?_⟩⟩
  · intro schedule fair
    exact TaskPool.finishes _ fair
  · intro schedule hfinished
    exact ReadJob.isolated_of_alone (TaskPool.reports_of_run (Engine.isolates job ps) hsame workers schedule hfinished)

/-- a read of both rows in two partitions -/
def ReadJob.ofEnds : ReadJob :=
  ⟨.ofEstimate false 2 1 2, (Query.fromView ⟨none, "ends"⟩).addSelect ["id"], ⟨[⟨"id", .long, false⟩]⟩, .default⟩

/-- the first partition fails once, the second fails for good -/
def Engine.ofBrokenEnds : Engine :=
  (Engine.ofEnds.failFetches ⟨0, 0⟩ 1 "reset").failFetches ⟨9223372036854775808, 18446744073709551615⟩
    18446744073709551615 "unavailable"

theorem partitions_isolated_ends :
    FaultsApart ReadJob.ofEnds.partitioning.partitions Engine.ofBrokenEnds.faults ∧
      ∀ workers schedule,
        (TaskPool.run Engine.remote .ofEnds 3 ReadJob.ofEnds.partitioning.partitions
          (TaskPool.start workers ReadJob.ofEnds.partitioning.partitions Engine.ofBrokenEnds) schedule).Finished →
        ((TaskPool.run Engine.remote .ofEnds 3 ReadJob.ofEnds.partitioning.partitions
          (TaskPool.start workers ReadJob.ofEnds.partitioning.partitions Engine.ofBrokenEnds) schedule).reports.map
            fun t => (t.outcome.attempts, t.outcome.result.toOption)) = [(2, some [⟨[.int 1]⟩]), (3, none)] := by
  have hapart : FaultsApart ReadJob.ofEnds.partitioning.partitions Engine.ofBrokenEnds.faults := by decide
  refine ⟨hapart, fun workers schedule hfinished => ?_⟩
  obtain ⟨_, hpool⟩ := partitions_isolated .ofEnds 3 ReadJob.ofEnds.partitioning.partitions Engine.ofBrokenEnds hapart
  rw [((hpool workers).2 schedule hfinished).alone]
  -- three attempts at most
  unfold ReadJob.runTask ReadJob.runTaskFrom ReadJob.runTaskFrom ReadJob.runTaskFrom
  simp only [ReadJob.attempt_eq]
  decide +kernel

end PartitionedScan
