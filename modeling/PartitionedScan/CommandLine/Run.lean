/-
Running a command over files.

A command reads its settings (a value on the command line wins over the configuration file), serves the dataset from
memory, pushes filter, columns and limit into the query and opens the read. `plan` shows the split and what was pushed;
`read` prints every row. Nothing tests rows on this side, so `read` refuses a filter of which a part was left out.
-/
import PartitionedScan.CommandLine.Invocation
import PartitionedScan.Csv
import PartitionedScan.Engine.Basic
import PartitionedScan.Read.Task
import PartitionedScan.Scan
import PartitionedScan.Settings.File

namespace PartitionedScan

/-- why a command fails -/
inductive CommandError where
  | read (cause : ReadError)
  | compile (cause : CompileError)
  | noDataset (path : String)
  | invalidDataset (path : String)
  /-- neither a view nor a plan is given -/
  | nothingToRead
  | noSourceView
  | unknownView (name : String)
  | invalidFilter (cause : QueryError)
  | unknownColumn
  /-- parts of the filter were left out, for these kinds of error -/
  | partialFilter (codes : List String)
  deriving DecidableEq, Repr

namespace CommandError

def message : CommandError → String
  | read cause => cause.message
  | compile cause => cause.message
  | noDataset path => "failed to read dataset " ++ path ++ ": No such file or directory (os error 2)"
  | invalidDataset path => "invalid dataset " ++ path ++ ": not a list of views"
  | nothingToRead => "either --view or --query is required"
  | noSourceView => "query does not name a source view"
  | unknownView name => "unknown view '" ++ name ++ "'"
  | invalidFilter cause => "invalid --filter: " ++ cause.message
  | unknownColumn => "--columns names an unknown column"
  | partialFilter codes =>
    "--filter could not be fully pushed down (" ++ ", ".intercalate codes ++
      "); read has no host-side filter, use --policy strict or fix the filter"

end CommandError

/-- the texts of files by path; none for a file that cannot be read -/
abbrev Files := String → Option String

/-- what a command runs with: files, the configuration file that the environment names, the one used when none is named,
and the number of processors -/
structure Surroundings where
  files : Files
  environmentConfig : Option String
  defaultConfig : Option String
  processors : Nat

namespace CommandLine

/-! ## Settings -/

/-- the options of a configuration file -/
def readConfig (files : Files) (path : String) : Except ReadError Options :=
  match files path with
  | none => .error (.unreadableFile path)
  | some text =>
    match Options.ofToml? text with
    | some o => .ok o
    | none => .error (.malformedFile path)

/-- the options of the configuration file that the command line or the environment names, else of the default one if it
is there -/
def loadConfig (s : Surroundings) (named : Option String) : Except ReadError Options :=
  match named.or s.environmentConfig with
  | some path => readConfig s.files path
  | none =>
    match s.defaultConfig with
    | some path => if (s.files path).isSome then readConfig s.files path else .ok .empty
    | none => .ok .empty

/-- an option that may be given -/
def given (key : String) (value : Option String) : List (String × String) :=
  value.toList.map fun v => (key, v)

end CommandLine

namespace ReadArguments

/-- the options given on the command line -/
def options (a : ReadArguments) : Options :=
  .ofList (CommandLine.given Options.numPartitions a.partitions ++ CommandLine.given Options.batchSize a.batchSize ++
    CommandLine.given Options.query a.plan)

/-- the query before anything is pushed: the plan among the settings, else the view -/
def baseQuery (a : ReadArguments) (settings : ReadSettings) : Except CommandError Query :=
  match settings.plan, a.view with
  | some _, _ => (settings.query.mapError ReadError.setting).mapError .read
  | none, some view => .ok (.fromView ⟨a.schema, view⟩)
  | none, none => .error .nothingToRead

/-- the columns of the rows, and the scan that fetches them -/
def scan (a : ReadArguments) (base : Query) (viewSchema : Schema) : Except CommandError (Schema × Scan) := do
  let scan := Scan.ofQuery base (some viewSchema) a.policy
  let scan ← match a.filter with
    | none => pure scan
    | some text =>
      match Filter.parse? text with
      | some f => pure (scan.pushFilter f)
      | none => throw (.invalidFilter .malformed)
  let (schema, scan) ← if a.columns.isEmpty then pure (viewSchema, scan)
    else
      match viewSchema.project? a.columns with
      | some schema => pure (schema, scan.pruneColumns a.columns)
      | none => throw .unknownColumn
  return (schema, match a.limit with | some limit => scan.pushLimit limit | none => scan)

end ReadArguments

/-- an opened read with the engine it reads from and what was pushed -/
structure PreparedRead where
  job : ReadJob
  engine : Engine
  report : PushdownReport

namespace CommandLine

/-- the engine that serves a dataset file -/
def loadDataset (files : Files) (path : String) : Except CommandError Engine :=
  match files path with
  | none => .error (.noDataset path)
  | some text =>
    match readDataset? text with
    | some views => .ok (.ofDataset views)
    | none => .error (.invalidDataset path)

/-- the columns of the view that a query reads -/
def sourceSchema (e : Engine) (q : Query) : Except CommandError Schema :=
  match q.sourceView with
  | none => .error .noSourceView
  | some reference =>
    match e.viewSchema reference with
    | some schema => .ok schema
    | none => .error (.unknownView reference.name)

/-- opens the read that arguments and file options describe -/
def prepare (s : Surroundings) (a : ReadArguments) (fileOptions : Options) (allowDropped : Bool) :
    Except CommandError PreparedRead := do
  let options := a.options.mergeMissing fileOptions
  let settings ← ((ReadSettings.ofOptions s.processors options).mapError ReadError.setting).mapError .read
  let connection ← ((Connection.ofOptions options).mapError ReadError.setting).mapError .read
  let engine ← loadDataset s.files a.dataset
  let base ← a.baseQuery settings
  let viewSchema ← sourceSchema engine base
  let (schema, scan) ← a.scan base viewSchema
  let (query, report) ← scan.build.mapError .compile
  if !allowDropped && !report.dropped.isEmpty then throw (.partialFilter (report.dropped.map CompileError.code))
  let (job, engine) := ReadJob.prepare Engine.remote query schema connection settings engine
  return ⟨← job.mapError .read, engine, report⟩

/-! ## Printing a plan -/

/-- a number right-aligned in three places -/
def padded (n : Nat) : String :=
  let digits := toString n
  "".pushn ' ' (3 - digits.length) ++ digits

def partitionLine (p : Partition) : String :=
  "  partition " ++ padded p.id ++ ": " ++ toString p.buckets.length ++ " bucket(s) " ++
    (match p.range? with | some r => r.text | none => "")

/-- the lines of a plan -/
def planLines (p : Partitioning) (report : PushdownReport) : List String :=
  ["Plan", "  estimated rows: " ++ toString p.estimatedRows, "  partitions:     " ++ toString p.partitions.length,
    "  buckets:        " ++ toString p.bucketCount] ++ p.partitions.map partitionLine ++ ["Pushdown"] ++
  report.pushed.map ("  pushed:   " ++ ·) ++ report.residual.map ("  residual: " ++ ·) ++
  report.dropped.map (fun e => "  dropped:  [" ++ e.code ++ "] " ++ e.message) ++
  (report.columns.toList.map fun columns => "  columns:  " ++ ",".intercalate columns) ++
  report.limit.toList.map fun limit => "  limit:    " ++ toString limit.toNat

/-- the document of a plan -/
def planJson (prepared : PreparedRead) : Json :=
  .object [("plan", prepared.job.query.plan.toJson), ("params", prepared.job.query.paramsJson),
    ("estimatedRows", .ofNat prepared.job.partitioning.estimatedRows),
    ("partitions", .array (prepared.job.partitioning.partitions.map Partition.toJson)),
    ("pushdown", prepared.report.toJson)]

def unlines (lines : List String) : String :=
  String.join (lines.map (· ++ "\n"))

def planText (prepared : PreparedRead) : PlanFormat → String
  | .text => unlines (planLines prepared.job.partitioning prepared.report)
  | .json => unlines [(planJson prepared).canonical.pretty]

/-! ## Printing rows -/

/-- a value as a field: text as it is, nothing for null, else its document -/
def cell (v : Value) : String :=
  match v.toJson with
  | .string s => s
  | .null => ""
  | j => j.render

/-- a header with the names of the columns, then a record for every row -/
def csvText (schema : Schema) (rows : List Row) : String :=
  String.join (Csv.line (schema.fields.map Field.name) :: rows.map fun r => Csv.line (r.values.map cell))

/-- a document for every row, one a line -/
def jsonText (schema : Schema) (rows : List Row) : String :=
  unlines (rows.map fun r => (r.toJson schema).render)

def rowText (schema : Schema) (rows : List Row) : RowFormat → String
  | .csv => csvText schema rows
  | .json => jsonText schema rows

/-! ## Commands -/

/-- the rows of all partitions -/
def readRows (prepared : PreparedRead) (maxAttempts : Nat) : Except ReadError (List Row) :=
  let (reports, _) := prepared.job.run Engine.remote maxAttempts prepared.job.partitioning.partitions prepared.engine
  ReadJob.collect reports

/-- what a command prints -/
def run (s : Surroundings) (i : Invocation) : Except CommandError String := do
  let fileOptions ← (loadConfig s i.config).mapError .read
  match i.command with
  | .plan a format =>
    let prepared ← prepare s a fileOptions true
    return planText prepared format
  | .read a format _ maxAttempts =>
    let prepared ← prepare s a fileOptions false
    let rows ← (readRows prepared maxAttempts.toNat).mapError .read
    return rowText prepared.job.schema rows format

/-! ## The whole program -/

/-- how a run ends: exit status and what is written to both outputs -/
structure ExitReport where
  code : Nat
  stdout : String
  stderr : String
  deriving DecidableEq, Repr

def versionText : String := "shardscan 0.1.0\n"

def usageText : String :=
  unlines ["Plan and run partitioned reads with predicate pushdown", "",
    "Usage: shardscan [--config FILE] plan --dataset FILE [--format text|json] [OPTIONS]",
    "       shardscan [--config FILE] read --dataset FILE [--output csv|json] [--workers N] [--max-attempts N] [OPTIONS]",
    "       shardscan --version", "",
    "Options: --view NAME --schema NAME --query JSON --filter JSON --policy strict|drop --columns NAME,...",
    "         --limit N --partitions N --batch-size N"]

/-- the answer to the words of a command line -/
def respond (s : Surroundings) (words : List String) : ExitReport :=
  match parse words with
  | .error .usage => ⟨2, "", usageText⟩
  | .error .help => ⟨0, usageText, ""⟩
  | .error .version => ⟨0, versionText, ""⟩
  | .ok i =>
    match run s i with
    | .ok text => ⟨0, text, ""⟩
    | .error e => ⟨1, "", "error: " ++ e.message ++ "\n"⟩

end CommandLine

end PartitionedScan
