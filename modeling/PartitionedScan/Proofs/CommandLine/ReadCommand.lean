/-
The read command prints the rows that are asked for, and nothing else.

From the words of the command line to the printed text: settings, dataset, view, filter and columns must all be right
(`Accepts`), and then opening the read succeeds, reading it comes to the decoding of the rows that are asked for, whatever
the number of workers (`ComesTo`), and these are printed one a line. The filter must compile strictly whatever the policy
is, so no part of it may fail: `read` prints nothing rather than rows that the filter did not see.
Main results:
- `run_eq_ok_iff`: when the command succeeds, and what it prints;
- `read_prints_selected`: a line for every row that is asked for; no line when a part of the filter does not compile.
-/
import PartitionedScan.Proofs.CommandLine.Pushed
import PartitionedScan.Proofs.Json.Lines
import PartitionedScan.Proofs.Read.ExactlyOnce

namespace PartitionedScan

/-! ## Options -/

namespace ReadArguments

theorem plan_merged {a : ReadArguments} (hplan : a.plan = none) {o : Options} (ho : o.get? Options.query = none) :
    (a.options.mergeMissing o).get? Options.query = none := by
  have hown : a.options.get? Options.query = none := by
    unfold options
    rw [hplan]
    have hpartitions : lowered Options.query ≠ lowered Options.numPartitions := by decide
    have hbatch : lowered Options.query ≠ lowered Options.batchSize := by decide
    cases a.partitions <;> cases a.batchSize <;>
      simp [Options.ofList, CommandLine.given, Options.insert, Options.get?, Options.empty, SortedMap.get?_insert,
        hpartitions, hbatch]
  rw [Options.get?_mergeMissing, hown]
  exact ho

end ReadArguments

namespace ReadSettings

theorem plan_of_ofOptions {processors : Nat} {o : Options} {settings : ReadSettings}
    (h : ofOptions processors o = .ok settings) : settings.plan = o.get? Options.query := by
  obtain ⟨partitions, _, h⟩ := bind_eq_ok_iff.1 h
  obtain ⟨batch, _, h⟩ := bind_eq_ok_iff.1 h
  cases h
  rfl

theorem validate_eq_ok_iff {settings : ReadSettings} :
    settings.validate = .ok () ↔ 1 ≤ settings.numPartitions ∧ 1 ≤ settings.batchSize := by
  unfold validate
  split_ifs <;> simp <;> omega

end ReadSettings

/-! ## Reading a prepared read -/

namespace PreparedRead

/-- reading comes to this, in sequence and with any number of workers, with any number of attempts: every fair schedule
comes to an end, and every schedule that comes to an end has that outcome -/
def ComesTo (p : PreparedRead) (outcome : Except ReadError (List Row)) : Prop :=
  ∀ maxAttempts, CommandLine.readRows p maxAttempts = outcome ∧ ∀ workers,
    (∀ schedule, TaskPool.Fair (TaskPool.start workers p.job.partitioning.partitions p.engine).workers.length schedule →
      ∃ k, (TaskPool.after Engine.remote p.job maxAttempts p.job.partitioning.partitions
        (TaskPool.start workers p.job.partitioning.partitions p.engine) schedule k).Finished) ∧
    ∀ schedule, (TaskPool.run Engine.remote p.job maxAttempts p.job.partitioning.partitions
        (TaskPool.start workers p.job.partitioning.partitions p.engine) schedule).Finished →
      ReadJob.collect (TaskPool.run Engine.remote p.job maxAttempts p.job.partitioning.partitions
        (TaskPool.start workers p.job.partitioning.partitions p.engine) schedule).reports = outcome

end PreparedRead

/-- a read is opened with settings that are valid, and for the schema that it is opened with -/
theorem ReadJob.of_prepare {σ : Type} {remote : Remote σ} {q : Query} {schema : Schema} {connection : Connection}
    {settings : ReadSettings} {world : σ} {job : ReadJob}
    (h : (prepare remote q schema connection settings world).1 = .ok job) :
    settings.validate = .ok () ∧ job.schema = schema := by
  unfold prepare at h
  cases hvalid : settings.validate with
  | error e =>
    rw [hvalid] at h
    cases h
  | ok u =>
    rw [hvalid] at h
    simp only at h
    split at h
    · cases h
    · obtain ⟨partitioning, _, rfl⟩ := map_eq_ok_iff.1 h
      exact ⟨rfl, rfl⟩

theorem Decodes.eq_ok_iff {schema : Schema} {rows : List JsonRow} {out : Except ReadError (List Row)}
    (h : Decodes schema rows out) {decoded : List Row} : out = .ok decoded ↔ rows.mapM schema.decodeRow = .ok decoded := by
  unfold Decodes at h
  cases hrows : rows.mapM schema.decodeRow with
  | ok found =>
    rw [hrows] at h
    rw [show out = .ok found from h]
    simp
  | error cause =>
    rw [hrows] at h
    obtain ⟨partition, rfl⟩ := h
    simp

namespace CommandLine

/-- a command line that reads a view of a dataset and prints documents: no plan is given, on the line or in the
configuration, and the dataset has the view that the line names -/
structure ReadsView (s : Surroundings) (words : List String) (config : Option String) (a : ReadArguments)
    (workers : Option UInt64) (attempts : UInt64) (views : List ViewData) (v : View) : Prop where
  command : parse words = .ok ⟨config, .read a .json workers attempts⟩
  planless : a.plan = none
  unconfigured : ∀ o, loadConfig s config = .ok o → o.get? Options.query = none
  dataset : (s.files a.dataset).bind readDataset? = some views
  /-- as many rows as a list in memory may have -/
  small : ∀ d ∈ views, d.rows.length < 2 ^ 63
  named : ∃ name, a.view = some name ∧ (Engine.ofDataset views).findView ⟨a.schema, name⟩ = some v

/-- options and arguments that leave nothing to complain of -/
structure Accepts (s : Surroundings) (o : Options) (a : ReadArguments) (v : View) (filter : Option Filter)
    (schema : Schema) : Prop where
  settings : ∃ settings, ReadSettings.ofOptions s.processors (a.options.mergeMissing o) = .ok settings ∧
    settings.validate = .ok ()
  connection : ∃ connection, Connection.ofOptions (a.options.mergeMissing o) = .ok connection
  readable : a.filter? = some filter
  /-- strictly, whatever the policy is -/
  compiles : ∃ c, ReadArguments.Compiles ⟨v.fields⟩ filter c
  columns : a.shownSchema? ⟨v.fields⟩ = some schema

section

variable {s : Surroundings} {words : List String} {config : Option String} {a : ReadArguments} {workers : Option UInt64}
  {attempts : UInt64} {views : List ViewData} {v : View} {o : Options} {filter : Option Filter} {schema : Schema}

/-! ## Opening -/

theorem loadDataset_eq (h : (s.files a.dataset).bind readDataset? = some views) :
    loadDataset s.files a.dataset = .ok (.ofDataset views) := by
  obtain ⟨text, htext, hviews⟩ := Option.bind_eq_some_iff.1 h
  unfold loadDataset
  simp only [htext, hviews]

theorem sourceSchema_eq {e : Engine} {reference : ViewName} (h : e.findView reference = some v) :
    sourceSchema e (.fromView reference) = .ok ⟨v.fields⟩ := by
  have hsource : (Query.fromView reference).sourceView = some reference := Engine.sourceView_of_source rfl
  have hschema : e.viewSchema reference = some ⟨v.fields⟩ := by
    rw [Engine.viewSchema, h]
    rfl
  unfold sourceSchema
  simp only [hsource, hschema]

/-- the rows that are asked for are among those of the dataset, cut to some of their cells -/
theorem portable_selected (h : (s.files a.dataset).bind readDataset? = some views) {reference : ViewName}
    (hview : (Engine.ofDataset views).findView reference = some v) :
    ∀ row ∈ (a.selected filter v).map a.fetched, Portable row := by
  obtain ⟨text, _, hviews⟩ := Option.bind_eq_some_iff.1 h
  obtain ⟨d, hd, rfl⟩ := Engine.mem_views_ofDataset (List.mem_of_find?_eq_some hview)
  have hselected (row : JsonRow) (hrow : row ∈ a.selected filter (.ofData d)) : row ∈ d.rows := by
    apply View.mem_rows_ofData
    unfold ReadArguments.selected ReadArguments.limited at hrow
    split at hrow
    · exact List.mem_of_mem_filter (List.mem_of_mem_take hrow)
    · exact List.mem_of_mem_filter hrow
  rw [List.forall_mem_map]
  intro row hrow
  have hportable := portable_of_readDataset? hviews d hd row (hselected row hrow)
  unfold ReadArguments.fetched
  split_ifs
  · exact hportable
  · exact hportable.filterKeys _

/-- **What is asked for is read**, whatever the hints are -/
theorem opens_query (h : ReadsView s words config a workers attempts views v) {name : String}
    (hview : (Engine.ofDataset views).findView ⟨a.schema, name⟩ = some v) {c : Option Compilation}
    (hc : ReadArguments.Compiles ⟨v.fields⟩ filter c) (schema : Schema) (connection : Connection)
    {settings : ReadSettings} (hsettings : settings.validate = .ok ()) (report : PushdownReport) :
    ∃ job e outcome, ReadJob.prepare Engine.remote (a.complete (.fromView ⟨a.schema, name⟩) c) schema connection settings
        (.ofDataset views) = (.ok job, e) ∧
      Decodes schema ((a.selected filter v).map a.fetched) outcome ∧ PreparedRead.ComesTo ⟨job, e, report⟩ outcome := by
  obtain ⟨hhint, hbatch⟩ := ReadSettings.validate_eq_ok_iff.1 hsettings
  obtain ⟨hfaults, hauth⟩ := Engine.calm_ofDataset views
  obtain ⟨hlower, hupper⟩ := a.complete_spares ⟨a.schema, name⟩ hc
  obtain ⟨columns, hresult⟩ := a.execute_complete hview hc
  have hviews : ∀ w ∈ (Engine.ofDataset views).views, w.rows.length < 2 ^ 63 := by
    intro w hw
    obtain ⟨d, hd, rfl⟩ := Engine.mem_views_ofDataset hw
    rw [View.length_rows_ofData]
    exact h.small d hd
  have hpayload : ∀ rows : List JsonRow, rows.Sublist ((a.selected filter v).map a.fetched) →
      (ResultSet.document ⟨columns, rows⟩).ReadsBack := by
    intro rows hrows
    apply ResultSet.readsBack_of_portable
    intro row hrow
    exact portable_selected h.dataset hview row (hrows.subset hrow)
  obtain ⟨job, e, outcome, hprepare, hdecodes, _, hcomes⟩ := read_exactly_once (.ofDataset views) _ schema connection settings
    _ hfaults hauth hviews hhint hbatch hlower hupper hresult hpayload
  exact ⟨job, e, outcome, hprepare, hdecodes, hcomes⟩

theorem baseQuery_eq (h : ReadsView s words config a workers attempts views v) (ho : loadConfig s config = .ok o)
    {name : String} (hname : a.view = some name) {settings : ReadSettings}
    (hsettings : ReadSettings.ofOptions s.processors (a.options.mergeMissing o) = .ok settings) :
    a.baseQuery settings = .ok (.fromView ⟨a.schema, name⟩) := by
  have hplan : settings.plan = none := by
    rw [ReadSettings.plan_of_ofOptions hsettings]
    exact ReadArguments.plan_merged h.planless (h.unconfigured o ho)
  unfold ReadArguments.baseQuery
  simp only [hplan, hname]

/-- **A read is opened when there is nothing to complain of**, and comes to the decoding of the rows that are asked for -/
theorem prepare_of_accepts (h : ReadsView s words config a workers attempts views v) (ho : loadConfig s config = .ok o)
    (haccepts : Accepts s o a v filter schema) :
    ∃ prepared outcome, prepare s a o false = .ok prepared ∧ prepared.job.schema = schema ∧
      Decodes schema ((a.selected filter v).map a.fetched) outcome ∧ prepared.ComesTo outcome := by
  obtain ⟨name, hname, hview⟩ := h.named
  obtain ⟨settings, hsettings, hvalid⟩ := haccepts.settings
  obtain ⟨connection, hconnection⟩ := haccepts.connection
  obtain ⟨c, hc⟩ := haccepts.compiles
  obtain ⟨report, hbuild, hdropped⟩ := ReadArguments.build_complete_iff.2 ⟨c, hc, rfl⟩
  obtain ⟨job, e, outcome, hjob, hdecodes, hcomes⟩ := opens_query h hview hc schema connection hvalid report
  refine ⟨⟨job, e, report⟩, outcome, ?_, (ReadJob.of_prepare (congrArg Prod.fst hjob)).2, hdecodes, hcomes⟩
  unfold prepare
  simp only [bind_eq_ok_iff, mapError_eq_ok_iff]
  refine ⟨settings, hsettings, connection, hconnection, _, loadDataset_eq h.dataset, _, baseQuery_eq h ho hname hsettings, _,
    sourceSchema_eq hview, _, ReadArguments.scan_eq_ok_iff.2 ⟨filter, haccepts.readable, haccepts.columns, rfl⟩, _, hbuild, ?_⟩
  simp only [hdropped, hjob]
  rfl

/-- **A read is opened only then** -/
theorem accepts_of_prepare (h : ReadsView s words config a workers attempts views v) (ho : loadConfig s config = .ok o)
    {prepared : PreparedRead} (hprepare : prepare s a o false = .ok prepared) :
    ∃ filter schema, Accepts s o a v filter schema := by
  obtain ⟨name, hname, hview⟩ := h.named
  unfold prepare at hprepare
  simp only [bind_eq_ok_iff, mapError_eq_ok_iff] at hprepare
  obtain ⟨settings, hsettings, connection, hconnection, e, he, base, hbase, found, hfound, ⟨schema, scan⟩, hscan,
    ⟨q, report⟩, hbuild, hopen⟩ := hprepare
  rw [loadDataset_eq h.dataset] at he
  cases he
  rw [baseQuery_eq h ho hname hsettings] at hbase
  cases hbase
  rw [sourceSchema_eq hview] at hfound
  cases hfound
  obtain ⟨filter, hfilter, hcolumns, rfl⟩ := ReadArguments.scan_eq_ok_iff.1 hscan
  split_ifs at hopen with hdropped
  · cases hopen
  · have hcomplete : report.dropped = [] := by simpa using hdropped
    obtain ⟨c, hc, _⟩ := ReadArguments.build_complete_iff.1 ⟨report, hbuild, hcomplete⟩
    obtain ⟨job, hjob, _⟩ := bind_eq_ok_iff.1 hopen
    obtain ⟨hvalid, _⟩ := ReadJob.of_prepare (mapError_eq_ok_iff.1 hjob)
    exact ⟨filter, schema, ⟨settings, hsettings, hvalid⟩, ⟨connection, hconnection⟩, hfilter, ⟨c, hc⟩, hcolumns⟩

theorem comesTo_of_prepare (h : ReadsView s words config a workers attempts views v) (ho : loadConfig s config = .ok o)
    {prepared : PreparedRead} (hprepare : prepare s a o false = .ok prepared) :
    ∃ filter outcome, Accepts s o a v filter prepared.job.schema ∧
      Decodes prepared.job.schema ((a.selected filter v).map a.fetched) outcome ∧ prepared.ComesTo outcome := by
  obtain ⟨filter, schema, haccepts⟩ := accepts_of_prepare h ho hprepare
  obtain ⟨prepared', outcome, hprepare', rfl, hdecodes, hcomes⟩ := prepare_of_accepts h ho haccepts
  obtain rfl : prepared = prepared' := Except.ok.inj (hprepare.symm.trans hprepare')
  exact ⟨filter, outcome, haccepts, hdecodes, hcomes⟩

/-! ## Printing -/

/-- **When the command succeeds, and what it prints**: options and arguments leave nothing to complain of, and all rows that are
asked for decode -/
theorem run_eq_ok_iff (h : ReadsView s words config a workers attempts views v) {text : String} :
    run s ⟨config, .read a .json workers attempts⟩ = .ok text ↔ ∃ o filter schema rows, loadConfig s config = .ok o ∧
      Accepts s o a v filter schema ∧ ((a.selected filter v).map a.fetched).mapM schema.decodeRow = .ok rows ∧
      text = jsonText schema rows := by
  unfold run
  simp only [bind_eq_ok_iff, mapError_eq_ok_iff]
  constructor
  · rintro ⟨o, ho, prepared, hprepare, rows, hrows, htext⟩
    obtain ⟨filter, outcome, haccepts, hdecodes, hcomes⟩ := comesTo_of_prepare h ho hprepare
    rw [(hcomes attempts.toNat).1] at hrows
    cases htext
    exact ⟨o, filter, _, rows, ho, haccepts, hdecodes.eq_ok_iff.1 hrows, rfl⟩
  · rintro ⟨o, filter, schema, rows, ho, haccepts, hrows, rfl⟩
    obtain ⟨prepared, outcome, hprepare, rfl, hdecodes, hcomes⟩ := prepare_of_accepts h ho haccepts
    refine ⟨o, ho, prepared, hprepare, rows, ?_, rfl⟩
    rw [(hcomes attempts.toNat).1]
    exact hdecodes.eq_ok_iff.2 hrows

theorem respond_eq (h : ReadsView s words config a workers attempts views v) :
    respond s words = match run s ⟨config, .read a .json workers attempts⟩ with
      | .ok text => ⟨0, text, ""⟩
      | .error e => ⟨1, "", "error: " ++ e.message ++ "\n"⟩ := by
  cases hrun : run s ⟨config, .read a .json workers attempts⟩ with
  | error e => simp only [respond, h.command, hrun]
  | ok text => simp only [respond, h.command, hrun]

/-- a line for a row: the document of what the fetched cells decode to, floats among them taken as they are read back
(`Json.Numeral.number?`) -/
def Shows (a : ReadArguments) (schema : Schema) (row : JsonRow) (line : String) : Prop :=
  ∃ r, schema.decodeRow (a.fetched row) = .ok r ∧ line = (r.toJson schema).render

/-- what is printed has a line for every row that is asked for -/
theorem lines_of_run (h : ReadsView s words config a workers attempts views v) {text : String}
    (hrun : run s ⟨config, .read a .json workers attempts⟩ = .ok text) :
    ∃ filter schema lines, a.filter? = some filter ∧ a.shownSchema? ⟨v.fields⟩ = some schema ∧ text = unlines lines ∧
      (∀ line ∈ lines, '\n' ∉ line.toList) ∧ List.Forall₂ (Shows a schema) (a.selected filter v) lines := by
  obtain ⟨o, filter, schema, rows, _, haccepts, hrows, rfl⟩ := (run_eq_ok_iff h).1 hrun
  refine ⟨filter, schema, rows.map fun r => (r.toJson schema).render, haccepts.readable, haccepts.columns, rfl, ?_, ?_⟩
  · rw [List.forall_mem_map]
    intro r _
    exact Json.newline_notMem_render _
  · apply List.forall₂_map_right_iff.2
    apply (List.forall₂_map_left_iff.1 (mapM_eq_ok_iff.1 hrows)).imp
    intro row r hr
    exact ⟨r, hr, rfl⟩

theorem compiles_of_run (h : ReadsView s words config a workers attempts views v) {text : String}
    (hrun : run s ⟨config, .read a .json workers attempts⟩ = .ok text) {f g : Filter} (hf : a.filter? = some (some f))
    {p : Place} (hg : f.at? p = some g) (policy : FallbackPolicy) :
    ∃ c, g.compile (some ⟨v.fields⟩) policy = .ok c := by
  obtain ⟨o, filter, schema, rows, _, haccepts, _⟩ := (run_eq_ok_iff h).1 hrun
  obtain ⟨c, hc⟩ := haccepts.compiles
  obtain rfl : filter = some f := Option.some.inj (haccepts.readable.symm.trans hf)
  obtain ⟨d, _, hd⟩ := ReadArguments.exists_of_compiles hc
  exact Filter.compiles_at hd hg policy

/-- **`read` prints the rows that are asked for, and nothing else.** Take a command line that reads a view. When it succeeds, it
prints a line for every row of the view on which the whole filter is true, in the order of the row ids, up to the limit. When
a part of the filter, compiled on its own against the columns of the view under either policy, fails, then so does the
command, and prints no row. And whatever it prints is what any number of workers read, in any order of their turns. -/
theorem read_prints_selected (h : ReadsView s words config a workers attempts views v) :
    ((respond s words).code = 0 → ∃ filter schema lines, a.filter? = some filter ∧
      a.shownSchema? ⟨v.fields⟩ = some schema ∧ (respond s words).stdout = unlines lines ∧
      (∀ line ∈ lines, '\n' ∉ line.toList) ∧ List.Forall₂ (Shows a schema) (a.selected filter v) lines) ∧
    (∀ f, a.filter? = some (some f) → ∀ p g policy e, f.at? p = some g →
      g.compile (some ⟨v.fields⟩) policy = .error e → (respond s words).code = 1 ∧ (respond s words).stdout = "") ∧
    ∀ o prepared, loadConfig s config = .ok o → prepare s a o false = .ok prepared →
      prepared.ComesTo (readRows prepared attempts.toNat) := by
  rw [respond_eq h]
  refine ⟨?_, ?_, ?_⟩
  · intro hcode
    cases hrun : run s ⟨config, .read a .json workers attempts⟩ with
    | error e =>
      rw [hrun] at hcode
      cases hcode
    | ok text => exact lines_of_run h hrun
  · intro f hf p g policy e hg hfails
    cases hrun : run s ⟨config, .read a .json workers attempts⟩ with
    | error e => exact ⟨rfl, rfl⟩
    | ok text =>
      obtain ⟨c, hc⟩ := compiles_of_run h hrun hf hg policy
      rw [hfails] at hc
      cases hc
  · intro o prepared ho hprepare
    obtain ⟨filter, outcome, _, _, hcomes⟩ := comesTo_of_prepare h ho hprepare
    rw [(hcomes attempts.toNat).1]
    exact hcomes

end

/-! ## A dataset of two rows -/

/-- a view of two rows, numbered by their only column -/
def viewOfTwo : ViewData :=
  let row (n : Nat) : JsonRow := SortedMap.ofList [("id", .ofNat n)]
  ⟨none, "t", [⟨"id", .long, true⟩], [row 1, row 2]⟩

/-- a file with that view, and no configuration -/
def surroundingsOfTwo : Surroundings where
  files path :=
    if path = "two.json" then
      some ("\x7b\"views\":[\x7b\"name\":\"t\",\"fields\":[\x7b\"name\":\"id\",\"type\":\"long\"\x7d]," ++
        "\"rows\":[\x7b\"id\":1\x7d,\x7b\"id\":2\x7d]\x7d]\x7d")
    else none
  environmentConfig := none
  defaultConfig := none
  processors := 4

/-- the words of a command line that reads the view under a policy with a filter, given by its text -/
def wordsOfTwo (policy filter : String) : List String :=
  ["read", "--dataset", "two.json", "--view", "t", "--output", "json", "--policy", policy, "--filter", filter]

/-- the arguments that these words make -/
def argumentsOfTwo (policy : FallbackPolicy) (filter : String) : ReadArguments :=
  ⟨"two.json", some "t", none, none, some filter, policy, [], none, none, none⟩

/-- `id >= 2`, with records as lists -/
def atLeastTwo : String :=
  "\x7b\"leaf\":[\"id\",\"ge\",[[\"Int\",2]]]\x7d"

/-- `id >= 2`, and a column that is not there is defined -/
def andUnknown : String :=
  "\x7b\"composite\":[\"and\",[" ++ atLeastTwo ++ ",\x7b\"leaf\":[\"x\",\"is-defined\"]\x7d]]\x7d"

theorem readsView_two {policy : FallbackPolicy} {word filter : String}
    (h : parse (wordsOfTwo word filter) = .ok ⟨none, .read (argumentsOfTwo policy filter) .json none 1⟩) :
    ReadsView surroundingsOfTwo (wordsOfTwo word filter) none (argumentsOfTwo policy filter) none 1 [viewOfTwo]
      (.ofData viewOfTwo) where
  command := h
  planless := rfl
  unconfigured o ho := by
    cases ho
    rfl
  dataset := (by decide +kernel : (surroundingsOfTwo.files "two.json").bind readDataset? = some [viewOfTwo])
  small := by decide
  named := ⟨"t", rfl, rfl⟩

theorem parse_atLeastTwo : parse (wordsOfTwo "drop" atLeastTwo) =
    .ok ⟨none, .read (argumentsOfTwo .dropUnsupported atLeastTwo) .json none 1⟩ := by decide +kernel

theorem filter?_atLeastTwo : (argumentsOfTwo .dropUnsupported atLeastTwo).filter? =
    some (some (.compare "id" .ge (.int 2))) := by decide +kernel

/-- whatever the ids are, the second row is the one that is asked for -/
theorem selected_atLeastTwo : (argumentsOfTwo .dropUnsupported atLeastTwo).selected (some (.compare "id" .ge (.int 2)))
    (.ofData viewOfTwo) = [SortedMap.ofList [("id", .ofNat 2)]] := by
  have hperm := View.rowsIn_full_perm viewOfTwo
  rw [View.rowsIn_full] at hperm
  have hkept := hperm.filter fun row => (Filter.compare "id" .ge (.int 2)).truth row == some true
  rw [(by decide +kernel : viewOfTwo.rows.filter (fun row => (Filter.compare "id" .ge (.int 2)).truth row == some true) =
    [SortedMap.ofList [("id", .ofNat 2)]])] at hkept
  exact List.perm_singleton.1 hkept

theorem decodeRow_atLeastTwo : Schema.decodeRow ⟨viewOfTwo.fields⟩
    ((argumentsOfTwo .dropUnsupported atLeastTwo).fetched (SortedMap.ofList [("id", .ofNat 2)])) = .ok ⟨[.int 2]⟩ := by
  decide +kernel

theorem code_atLeastTwo : (respond surroundingsOfTwo (wordsOfTwo "drop" atLeastTwo)).code = 0 := by
  have hreads := readsView_two parse_atLeastTwo
  have haccepts : Accepts surroundingsOfTwo .empty (argumentsOfTwo .dropUnsupported atLeastTwo) (.ofData viewOfTwo)
      (some (.compare "id" .ge (.int 2))) ⟨viewOfTwo.fields⟩ :=
    ⟨⟨⟨4, 10000, none⟩, by decide +kernel, by decide⟩, ⟨.default, by decide +kernel⟩, filter?_atLeastTwo, ⟨some _, rfl⟩, rfl⟩
  have hrows : (((argumentsOfTwo .dropUnsupported atLeastTwo).selected (some (.compare "id" .ge (.int 2)))
      (.ofData viewOfTwo)).map (argumentsOfTwo .dropUnsupported atLeastTwo).fetched).mapM
        (Schema.decodeRow ⟨viewOfTwo.fields⟩) = .ok [⟨[.int 2]⟩] := by
    rw [selected_atLeastTwo]
    exact mapM_eq_ok_iff.2 (.cons decodeRow_atLeastTwo .nil)
  have hrun := (run_eq_ok_iff hreads).2 ⟨.empty, _, _, _, rfl, haccepts, hrows, rfl⟩
  rw [respond_eq hreads, hrun]

/-- the row on which the filter is true, and nothing when a part of the filter names no column, though it may be dropped -/
theorem read_prints_selected_two :
    (respond surroundingsOfTwo (wordsOfTwo "drop" atLeastTwo)).stdout = "\x7b\"id\":2\x7d\n" ∧
      (respond surroundingsOfTwo (wordsOfTwo "drop" andUnknown)).code = 1 ∧
      (respond surroundingsOfTwo (wordsOfTwo "drop" andUnknown)).stdout = "" := by
  constructor
  · obtain ⟨filter, schema, lines, hfilter, hcolumns, hstdout, _, hlines⟩ :=
      (read_prints_selected (readsView_two parse_atLeastTwo)).1 code_atLeastTwo
    rw [filter?_atLeastTwo] at hfilter
    cases hfilter
    cases hcolumns
    rw [selected_atLeastTwo] at hlines
    obtain ⟨line, rest, ⟨r, hr, rfl⟩, hrest, rfl⟩ := List.forall₂_cons_left_iff.1 hlines
    cases hrest
    have hrow := decodeRow_atLeastTwo.symm.trans hr
    cases hrow
    rw [hstdout]
    decide +kernel
  · have hparse : parse (wordsOfTwo "drop" andUnknown) =
        .ok ⟨none, .read (argumentsOfTwo .dropUnsupported andUnknown) .json none 1⟩ := by decide +kernel
    have hfilter : (argumentsOfTwo .dropUnsupported andUnknown).filter? =
        some (some (.composite .and [.compare "id" .ge (.int 2), .isDefined "x"])) := by decide +kernel
    exact (read_prints_selected (readsView_two hparse)).2.1 _ hfilter [1] (.isDefined "x") .dropUnsupported _ rfl rfl

end CommandLine

end PartitionedScan
