/-
The words of a command line.

Before the command stands at most the configuration file; after it the options of the command, each with a value, which
is the next word or follows an equals sign. A word that looks like an option is no value unless it follows an equals
sign or a double dash, and only the list of columns may be given more than once. Whatever does not fit is a usage error;
asking for help or the version answers as soon as everything before it fits.
-/
import PartitionedScan.Filter.Compile

namespace PartitionedScan

/-- how a plan is printed -/
inductive PlanFormat where
  | text
  | json
  deriving DecidableEq, Repr

/-- how rows are printed -/
inductive RowFormat where
  | csv
  | json
  deriving DecidableEq, Repr

/-- what is to be read, and how -/
structure ReadArguments where
  /-- path of the dataset -/
  dataset : String
  view : Option String
  schema : Option String
  /-- text of a plan -/
  plan : Option String
  /-- text of a filter -/
  filter : Option String
  policy : FallbackPolicy
  columns : List String
  limit : Option UInt64
  partitions : Option String
  batchSize : Option String
  deriving DecidableEq, Repr

/-- what a command line asks for -/
inductive Command where
  /-- show how the read would be split -/
  | plan (arguments : ReadArguments) (format : PlanFormat)
  /-- read and print the rows -/
  | read (arguments : ReadArguments) (format : RowFormat) (workers : Option UInt64) (maxAttempts : UInt64)
  deriving DecidableEq, Repr

/-- a command with the configuration file named on the command line -/
structure Invocation where
  config : Option String
  command : Command
  deriving DecidableEq, Repr

/-- why there is no command to run -/
inductive Stop where
  | usage
  | help
  | version
  deriving DecidableEq, Repr

namespace CommandLine

/-! ## Words -/

/-- an option with its value -/
abbrev Setting := String × String

/-- what options are followed by -/
inductive Ending where
  | done
  | stop (s : Stop)
  /-- a word that is no option, and the words after it -/
  | word (w : String) (rest : List String)
  deriving DecidableEq, Repr

/-- whether a word can only be an option -/
def looksLikeOption : List Char → Bool
  | '-' :: _ :: _ => true
  | _ => false

/-- what a flag asks for; the version only where there is one -/
def flag? (versioned : Bool) : List Char → Option Stop
  | '-' :: 'h' :: _ => some .help
  | '-' :: 'V' :: _ => if versioned then some .version else none
  | cs =>
    if cs = "--help".toList then some .help
    else if cs = "--version".toList ∧ versioned = true then some .version
    else none

/-- the name of an option and the value attached to it -/
def splitOption (cs : List Char) : String × Option String :=
  match Text.splitFirst '=' (cs.drop 2) with
  | some (name, value) => (String.ofList name, some (String.ofList value))
  | none => (String.ofList (cs.drop 2), none)

/-- the options at the start of a line, and what follows them; after a double dash nothing may follow -/
def options (names : List String) (versioned : Bool) : List String → List Setting × Ending
  | [] => ([], .done)
  | w :: rest =>
    let cs := w.toList
    if cs = ['-', '-'] then ([], if rest.isEmpty then .done else .stop .usage)
    else if !looksLikeOption cs then ([], .word w rest)
    else
      match flag? versioned cs with
      | some s => ([], .stop s)
      | none =>
        let (name, attached) := splitOption cs
        if !(['-', '-'].isPrefixOf cs && names.contains name) then ([], .stop .usage)
        else
          match attached with
          | some value =>
            let (settings, ending) := options names versioned rest
            ((name, value) :: settings, ending)
          | none =>
            match rest with
            | [] => ([], .stop .usage)
            | "--" :: rest =>
              match rest with
              | [value] => ([(name, value)], .done)
              | _ => ([], .stop .usage)
            | value :: rest =>
              if looksLikeOption value.toList then ([], .stop .usage)
              else
                let (settings, ending) := options names versioned rest
                ((name, value) :: settings, ending)

/-! ## Values -/

/-- the values of an option, in order -/
def valuesOf (settings : List Setting) (name : String) : List String :=
  (settings.filter fun s => s.1 == name).map Prod.snd

/-- the value of an option that is given at most once -/
def value? (settings : List Setting) (name : String) : Except Stop (Option String) :=
  match valuesOf settings name with
  | [] => .ok none
  | [value] => .ok (some value)
  | _ => .error .usage

/-- the value of an option, read -/
def read? {α : Type} (settings : List Setting) (name : String) (reader : String → Option α) :
    Except Stop (Option α) := do
  match ← value? settings name with
  | none => return none
  | some text =>
    match reader text with
    | some a => return some a
    | none => throw .usage

/-- a path is not empty -/
def path? (s : String) : Option String :=
  if s.isEmpty then none else some s

def word64? (s : String) : Option UInt64 :=
  Text.Integer.readUInt64? s.toList

def policy? : String → Option FallbackPolicy
  | "strict" => some .strict
  | "drop" => some .dropUnsupported
  | _ => none

def planFormat? : String → Option PlanFormat
  | "text" => some .text
  | "json" => some .json
  | _ => none

def rowFormat? : String → Option RowFormat
  | "csv" => some .csv
  | "json" => some .json
  | _ => none

/-- lists of columns, one after another -/
def columns (settings : List Setting) : List String :=
  (valuesOf settings "columns").flatMap fun s => (Text.segments ',' s.toList).map String.ofList

/-- the arguments of a read; the dataset may still be missing -/
def readArguments (settings : List Setting) : Except Stop (Option String × (String → ReadArguments)) := do
  let dataset ← read? settings "dataset" path?
  let view ← value? settings "view"
  let schema ← value? settings "schema"
  let plan ← value? settings "query"
  let filter ← value? settings "filter"
  let policy ← read? settings "policy" policy?
  let limit ← read? settings "limit" word64?
  let partitions ← value? settings "partitions"
  let batchSize ← value? settings "batch-size"
  return (dataset, fun dataset =>
    { dataset, view, schema, plan, filter
      policy := policy.getD .strict
      columns := columns settings
      limit
      partitions, batchSize })

/-! ## Commands -/

/-- the options that both commands have -/
def sharedOptions : List String :=
  ["config", "dataset", "view", "schema", "query", "filter", "policy", "columns", "limit", "partitions", "batch-size"]

def planOptions : List String :=
  "format" :: sharedOptions

def readOptions : List String :=
  "output" :: "workers" :: "max-attempts" :: sharedOptions

/-- the command that complete options make; a configuration file given here wins over `config` -/
def finish (config : Option String) (settings : List Setting) (ending : Ending)
    (command : Except Stop (ReadArguments → Command)) : Except Stop Invocation := do
  let own ← read? settings "config" path?
  let (dataset, arguments) ← readArguments settings
  let command ← command
  match ending, dataset with
  | .done, some dataset => return ⟨own.or config, command (arguments dataset)⟩
  | .stop s, _ => throw s
  | _, _ => throw .usage

/-- the words after `plan` -/
def plan (config : Option String) (words : List String) : Except Stop Invocation :=
  let (settings, ending) := options planOptions false words
  finish config settings ending do
    let format ← read? settings "format" planFormat?
    return fun arguments => .plan arguments (format.getD .text)

/-- the words after `read` -/
def read (config : Option String) (words : List String) : Except Stop Invocation :=
  let (settings, ending) := options readOptions false words
  finish config settings ending do
    let output ← read? settings "output" rowFormat?
    let workers ← read? settings "workers" word64?
    let maxAttempts ← read? settings "max-attempts" word64?
    return fun arguments => .read arguments (output.getD .csv) workers (maxAttempts.getD 1)

/-- what the words of a command line ask for -/
def parse (words : List String) : Except Stop Invocation := do
  let (settings, ending) := options ["config"] true words
  let config ← read? settings "config" path?
  match ending with
  | .word "plan" rest => plan config rest
  | .word "read" rest => read config rest
  | .stop s => throw s
  | _ => throw .usage

end CommandLine

end PartitionedScan
