/-
What a command pushes into its query, and what the query comes to.

Arguments say three things about rows: a filter, columns and a limit. `ReadArguments.scan` reads them and `Scan.build` appends
them to the base query in the order where, select, limit (`ReadArguments.complete`); so over a view the query gives the rows
on which the filter is true, by their ids, as many as the limit allows, each cut to the columns (`selected`, `fetched`).
A filter of which a part is left out never gets that far: nothing is left out just when the filter compiles strictly.
Main results:
- `scan_eq_ok_iff`: when arguments make a scan, and which;
- `build_complete_iff`: when a scan is built with nothing left out, and what is built;
- `execute_complete`: what that query gives over a view.
-/
import PartitionedScan.CommandLine.Run
import PartitionedScan.Proofs.Columns
import PartitionedScan.Proofs.Filter.Application
import PartitionedScan.Proofs.Filter.Subtrees
import PartitionedScan.Proofs.Read.Datasets

namespace PartitionedScan

/-! ## Limits and reserved names -/

theorem ResultSet.step_limit (params : SortedMap Value) (r : ResultSet) (limit : UInt64) :
    r.step params (.op "limit" [.scalar (.number (.ofUInt64 limit))]) = .ok { r with rows := r.rows.take limit.toNat } := by
  have hcount : (Operator.op "limit" [.scalar (.number (.ofUInt64 limit))]).limitCount = .ok limit.toNat := by
    simp [Operator.limitCount, Operator.op, Json.Number.ofUInt64, Json.Number.nat?]
  have hwhere : (Operator.op "limit" [.scalar (.number (.ofUInt64 limit))]).is "op" "where" = false := rfl
  have hselect : (Operator.op "limit" [.scalar (.number (.ofUInt64 limit))]).is "op" "select" = false := rfl
  have hlimit : (Operator.op "limit" [.scalar (.number (.ofUInt64 limit))]).is "op" "limit" = true := rfl
  rw [step, hwhere, if_neg Bool.false_ne_true, hselect, if_neg Bool.false_ne_true, if_pos hlimit, hcount]
  rfl

theorem execute_addLimit (e : Engine) (q : Query) (limit : UInt64) (range : RowRange) :
    e.execute (q.addLimit limit) range = (e.execute q range).map fun r => { r with rows := r.rows.take limit.toNat } := by
  rw [Query.addLimit, e.execute_addOperator]
  cases e.execute q range with
  | error cause => rfl
  | ok r => exact ResultSet.step_limit q.params r limit

namespace Query

theorem placeholder_not_reserved (n : Nat) : placeholder n ≠ lowerParam ∧ placeholder n ≠ upperParam := by
  have hletter : (placeholder n).toList[10]? = some 'p' := by
    have hparts : (placeholder n).toList = "shardscan_param_".toList ++ (toString n).toList := String.toList_append
    rw [hparts, List.getElem?_append_left (by decide)]
    rfl
  constructor
  all_goals
    intro h
    rw [h] at hletter
    exact absurd hletter (by decide)

/-- only a condition brings names into a query -/
theorem mentions_addOperator {q : Query} {o : Operator} (ho : o.condition? = none) {name : String} :
    (q.addOperator o).Mentions name ↔ q.Mentions name := by
  have hconditions : (q.addOperator o).conditions = q.conditions := by
    rw [conditions, steps_addOperator, List.filterMap_append, List.filterMap_cons, ho]
    exact List.append_nil _
  rw [Mentions, hconditions, Mentions]

/-- every row of a view is asked for without a condition -/
theorem not_mentions_fromView (reference : ViewName) (name : String) : ¬ (fromView reference).Mentions name := by
  rintro ⟨o, ho, _⟩
  cases ho

end Query

/-! ## What is asked for -/

namespace ReadArguments

/-- the filter that is given, if any; none when its text is no filter -/
def filter? (a : ReadArguments) : Option (Option Filter) :=
  match a.filter with
  | none => some none
  | some text => (Filter.parse? text).map some

/-- the columns of the rows that are shown -/
def shownSchema? (a : ReadArguments) (s : Schema) : Option Schema :=
  if a.columns.isEmpty then some s else s.project? a.columns

/-- the cells of a row that are fetched -/
def fetched (a : ReadArguments) (row : JsonRow) : JsonRow :=
  if a.columns.isEmpty then row else row.filterKeys (a.columns.map columnKey).contains

/-- the first rows, if there is a limit -/
def limited (a : ReadArguments) (rows : List JsonRow) : List JsonRow :=
  match a.limit with
  | some limit => rows.take limit.toNat
  | none => rows

/-- the rows of a view on which the whole filter is true, in the order of their ids, up to the limit -/
def selected (a : ReadArguments) (filter : Option Filter) (v : View) : List JsonRow :=
  a.limited ((v.rows.map Prod.snd).filter fun row => filter.all fun f => f.truth row == some true)

/-- everything that is asked for, on a base query -/
def pushed (a : ReadArguments) (base : Query) (s : Schema) (filter : Option Filter) : Scan where
  base
  schema := some s
  policy := a.policy
  filters := filter.toList
  pushed := filter.toList.map Filter.text
  residual := []
  columns := if a.columns.isEmpty then none else some a.columns
  limit := a.limit

/-- **When arguments make a scan**: the filter, if there is one, can be read, and every column is known -/
theorem scan_eq_ok_iff {a : ReadArguments} {base : Query} {s t : Schema} {scan : Scan} :
    a.scan base s = .ok (t, scan) ↔
      ∃ filter, a.filter? = some filter ∧ a.shownSchema? s = some t ∧ scan = a.pushed base s filter := by
  unfold ReadArguments.scan filter? shownSchema? pushed
  -- each choice is made apart: the filter, the columns, the limit
  rcases hfilter : a.filter with _ | text
  · cases a.columns.isEmpty <;> cases s.project? a.columns <;> cases a.limit <;>
      simp [Scan.ofQuery, Scan.pruneColumns, Scan.pushLimit, bind, Except.bind, pure, Except.pure, throw, throwThe,
        MonadExceptOf.throw, eq_comm]
  · rcases hread : Filter.parse? text with _ | f
    · simp [hread, bind, Except.bind, throw, throwThe, MonadExceptOf.throw]
    · cases a.columns.isEmpty <;> cases s.project? a.columns <;> cases a.limit <;>
        simp [hread, Scan.ofQuery, Scan.pushFilter, Scan.pruneColumns, Scan.pushLimit, bind, Except.bind, pure,
          Except.pure, throw, throwThe, MonadExceptOf.throw, eq_comm]

/-! ## The query -/

/-- the query with everything that is asked for -/
def complete (a : ReadArguments) (base : Query) (c : Option Compilation) : Query :=
  let q := c.elim base base.applyFilter
  let q := if a.columns.isEmpty then q else q.addSelect a.columns
  match a.limit with
  | some limit => q.addLimit limit
  | none => q

/-- the strict compilation of the filter, if there is a filter -/
def Compiles (s : Schema) (filter : Option Filter) (c : Option Compilation) : Prop :=
  filter.map (fun f => f.compile (some s) .strict) = c.map .ok

theorem eq_none_of_compiles {s : Schema} {c : Option Compilation} (h : Compiles s none c) : c = none :=
  Option.map_eq_none_iff.1 h.symm

theorem exists_of_compiles {s : Schema} {f : Filter} {c : Option Compilation} (h : Compiles s (some f) c) :
    ∃ d, c = some d ∧ f.compile (some s) .strict = .ok d := by
  cases c with
  | none => cases h
  | some d => exact ⟨d, rfl, Option.some.inj h⟩

/-- what is told of the scan, with these parts of the filter left out -/
def reported (a : ReadArguments) (filter : Option Filter) (dropped : List CompileError) : PushdownReport where
  pushed := filter.toList.map Filter.text
  residual := []
  columns := if a.columns.isEmpty then none else some a.columns
  limit := a.limit
  dropped

theorem build_pushed (a : ReadArguments) (base : Query) (s : Schema) (filter : Option Filter) :
    (a.pushed base s filter).build = match filter with
      | none => .ok (a.complete base none, a.reported none [])
      | some f => (f.compile (some s) a.policy).map fun c => (a.complete base (some c), a.reported (some f) c.dropped) := by
  unfold Scan.build pushed complete reported
  cases filter with
  | none => cases a.columns.isEmpty <;> cases a.limit <;> rfl
  | some f =>
    simp only [Scan.combined?, Option.toList]
    cases f.compile (some s) a.policy with
    | error e => rfl
    | ok c => cases a.columns.isEmpty <;> cases a.limit <;> rfl

/-- **When a scan is built with nothing left out**: the filter, if there is one, compiles strictly -/
theorem build_complete_iff {a : ReadArguments} {base : Query} {s : Schema} {filter : Option Filter} {q : Query} :
    (∃ report, (a.pushed base s filter).build = .ok (q, report) ∧ report.dropped = []) ↔
      ∃ c, Compiles s filter c ∧ q = a.complete base c := by
  rw [build_pushed]
  cases filter with
  | none =>
    constructor
    · rintro ⟨report, hbuild, _⟩
      cases hbuild
      exact ⟨none, rfl, rfl⟩
    · rintro ⟨c, hc, rfl⟩
      obtain rfl := eq_none_of_compiles hc
      exact ⟨_, rfl, rfl⟩
  | some f =>
    constructor
    · rintro ⟨report, hbuild, hd⟩
      obtain ⟨c, hc, heq⟩ := map_eq_ok_iff.1 hbuild
      cases heq
      exact ⟨some c, congrArg some (Filter.compile_complete_iff.1 ⟨hc, hd⟩), rfl⟩
    · rintro ⟨c, hc, rfl⟩
      obtain ⟨d, rfl, hd⟩ := exists_of_compiles hc
      obtain ⟨hpolicy, hcomplete⟩ : f.compile (some s) a.policy = .ok d ∧ d.dropped = [] :=
        Filter.compile_complete_iff.2 hd
      refine ⟨a.reported (some f) d.dropped, ?_, hcomplete⟩
      simp only [hpolicy, Except.map]

section

variable {e : Engine} {a : ReadArguments} {v : View} {reference : ViewName} {filter : Option Filter} {c : Option Compilation}

/-- **Over a view the query gives the rows that are asked for**, each with the cells that are fetched -/
theorem execute_complete (hview : e.findView reference = some v) (hc : Compiles ⟨v.fields⟩ filter c) :
    ∃ columns, e.execute (a.complete (.fromView reference) c) .full =
      .ok ⟨columns, (a.selected filter v).map a.fetched⟩ := by
  have hsource : (Query.fromView reference).sourceView = some reference := Engine.sourceView_of_source rfl
  have hbase : e.execute (.fromView reference) .full = .ok ⟨v.fields.map Field.name, v.rows.map Prod.snd⟩ := by
    rw [Engine.execute, hsource]
    simp only [hview, View.rowsIn_full]
    rfl
  have hfiltered : e.execute (c.elim (.fromView reference) (Query.fromView reference).applyFilter) .full =
      .ok ⟨v.fields.map Field.name, (v.rows.map Prod.snd).filter fun row => filter.all fun f => f.truth row == some true⟩ := by
    cases filter with
    | none =>
      obtain rfl := eq_none_of_compiles hc
      simpa using hbase
    | some f =>
      obtain ⟨d, rfl, hd⟩ := exists_of_compiles hc
      obtain ⟨r, _, hr⟩ := Filter.compile_eq_ok_iff.1 hd
      have hspares : (Query.fromView reference).Spares d.bindings := by
        rw [hr]
        exact Query.spares_of_free (fun n => Query.not_mentions_fromView reference _) r.values
      rw [Option.elim_some, Engine.execute_applied hd (Filter.dropped_of_strict hd), e.execute_bindAll hspares, hbase]
      simp [Except.map, ResultSet.satisfying]
  unfold complete selected limited fetched
  cases a.columns.isEmpty <;> cases a.limit
  all_goals simp [execute_addLimit, execute_addSelect, hfiltered, Except.map, List.map_take]

theorem complete_spares (a : ReadArguments) (reference : ViewName) {s : Schema} (hc : Compiles s filter c) :
    ¬ (a.complete (.fromView reference) c).Mentions Query.lowerParam ∧
      ¬ (a.complete (.fromView reference) c).Mentions Query.upperParam := by
  have hnames (name : String) (hname : ∀ n, placeholder n ≠ name) :
      ¬ (a.complete (.fromView reference) c).Mentions name := by
    have hfiltered : ¬ (c.elim (.fromView reference) (Query.fromView reference).applyFilter).Mentions name := by
      cases filter with
      | none =>
        obtain rfl := eq_none_of_compiles hc
        exact Query.not_mentions_fromView reference name
      | some f =>
        obtain ⟨d, rfl, hd⟩ := exists_of_compiles hc
        obtain ⟨r, _, hr⟩ := Filter.compile_eq_ok_iff.1 hd
        intro hmentions
        rcases (Query.mentions_applied_iff hd).1 hmentions with hbase | ⟨v, hv⟩
        · exact Query.not_mentions_fromView reference name hbase
        · rw [hr] at hv
          obtain ⟨n, _, hn⟩ := mem_literalBindings.1 hv
          exact hname n hn.symm
    have hselect (q : Query) : (q.addSelect a.columns).Mentions name ↔ q.Mentions name := Query.mentions_addOperator rfl
    have hlimit (q : Query) (n : UInt64) : (q.addLimit n).Mentions name ↔ q.Mentions name := Query.mentions_addOperator rfl
    unfold complete
    cases a.columns.isEmpty <;> cases a.limit <;> simpa [hselect, hlimit] using hfiltered
  exact ⟨hnames _ fun n => (Query.placeholder_not_reserved n).1, hnames _ fun n => (Query.placeholder_not_reserved n).2⟩

end

end ReadArguments

end PartitionedScan
