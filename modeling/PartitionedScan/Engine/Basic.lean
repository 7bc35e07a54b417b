/-
An engine that answers from memory.

It serves views, counts what it is asked for and can be told to fail: a fault refuses the next fetches that start in its
range, and a refused login shows in every check. A query runs over the rows of a range in the order of their ids, step
by step; `estimate` runs it over all ids and has the engine's own way of saying that there are no rows.
-/
import PartitionedScan.Engine.View
import PartitionedScan.Remote.Basic

namespace PartitionedScan

/-- refuses the next `remaining` fetches whose first row id lies in a range -/
structure Fault where
  range : RowRange
  remaining : Nat
  message : String
  deriving DecidableEq, Repr

/-- what an engine has been asked for -/
structure EngineStats where
  /-- connections opened so far -/
  opened : Nat
  /-- connections not released yet -/
  live : Nat
  estimates : Nat
  /-- fetches, refused ones included -/
  fetches : Nat
  /-- rows sent by all fetches -/
  rows : Nat
  deriving DecidableEq, Repr

/-- views, faults, the message of a refused login, and counters -/
structure Engine where
  views : List View
  faults : List Fault
  authFailure : Option String
  stats : EngineStats

/-- the rows of a query and the columns they are meant to show -/
structure ResultSet where
  columns : List String
  rows : List JsonRow
  deriving DecidableEq, Repr

namespace ResultSet

/-- the text sent for a fetch -/
def payload (r : ResultSet) : String :=
  (Json.object [("columns", .ofStrings r.columns), ("rows", .array (r.rows.map fun row => .object row.entries))]).render

/-! ## Steps of a query -/

/-- the rows on which an expression is true -/
def keepWhere (params : SortedMap Value) (expression : Operator) : List JsonRow → Except RemoteError (List JsonRow)
  | [] => .ok []
  | row :: rest => do
    let kept ← expression.holds ⟨params, row⟩
    let rest ← keepWhere params expression rest
    return if kept then row :: rest else rest

/-- one operator of a query -/
def step (params : SortedMap Value) (r : ResultSet) (o : Operator) : Except RemoteError ResultSet :=
  if o.is "op" "where" then
    match o.children with
    | expression :: _ => do return { r with rows := ← keepWhere params expression r.rows }
    | [] => .error (.badPlan "op:where expects an expression")
  else if o.is "op" "select" then do
    let columns ← o.selectedColumns
    return ⟨columns, r.rows.map fun row => row.filterKeys columns.contains⟩
  else if o.is "op" "limit" then do
    return { r with rows := r.rows.take (← o.limitCount) }
  else .error (.badPlan ("unsupported operator " ++ o.title))

end ResultSet

namespace Engine

/-- no views -/
def empty : Engine := ⟨[], [], none, ⟨0, 0, 0, 0, 0⟩⟩

/-! ## Views -/

/-- adds a view, in place of the one with its name and schema -/
def insertView (e : Engine) (v : View) : Engine :=
  { e with views := e.views.filter (fun w => !(w.name == v.name && w.schema == v.schema)) ++ [v] }

/-- an engine that serves the views of a dataset -/
def ofDataset (views : List ViewData) : Engine :=
  views.foldl (fun e d => e.insertView (.ofData d)) empty

/-- the first view that a reference means -/
def findView (e : Engine) (reference : ViewName) : Option View :=
  e.views.find? fun v => v.answersTo reference

/-- the columns of a view -/
def viewSchema (e : Engine) (reference : ViewName) : Option Schema :=
  (e.findView reference).map fun v => ⟨v.fields⟩

/-- the row ids of a view in order; none for a view that is not served -/
def rowIds (e : Engine) (reference : ViewName) : List UInt64 :=
  match e.findView reference with
  | some v => v.rows.map Prod.fst
  | none => []

/-! ## Queries -/

/-- runs a query over the rows of a range -/
def execute (e : Engine) (q : Query) (range : RowRange) : Except RemoteError ResultSet :=
  match q.sourceView with
  | none => .error (.badPlan "plan has no from-view source")
  | some reference =>
    match e.findView reference with
    | none => .error (.status 404 ("SQL-TABLENOTFOUND: Unknown table: " ++ reference.name))
    | some v => q.steps.foldlM (ResultSet.step q.params) ⟨v.fields.map Field.name, v.rowsIn range⟩

/-- a row id bound to a parameter, as decimal text or as a number -/
def boundId (q : Query) (name : String) (default : UInt64) : Except RemoteError UInt64 :=
  let refuse (found : String) := Except.error (RemoteError.badPlan ("invalid value for " ++ name ++ ": " ++ found))
  match q.params.get? name with
  | none => .ok default
  | some (.string text) =>
    match Text.Integer.readUInt64? text.toList with
    | some n => .ok n
    | none => refuse text
  | some (.int n) => if n < 0 then refuse (toString n.toInt) else .ok (UInt64.ofInt n.toInt)
  | some other => refuse other.text

/-- the row ids that a query asks for; all of them unless parameters say otherwise -/
def requestedRange (q : Query) : Except RemoteError RowRange := do
  let lower ← boundId q Query.lowerParam RowRange.full.lower
  let upper ← boundId q Query.upperParam RowRange.full.upper
  return ⟨lower, upper⟩

/-! ## Calls -/

/-- how an estimate says that there are no rows -/
def noRows : RemoteError :=
  .status 500 ("XDMP-AS: (err:XPTY0004) " ++ RemoteError.noRowsDiagnostic)

/-- the number of rows of a query over all ids -/
def estimate (q : Query) (e : Engine) : Except RemoteError Nat × Engine :=
  let answer := match e.execute q .full with
    | .error cause => .error cause
    | .ok r => if r.rows.isEmpty then .error noRows else .ok r.rows.length
  (answer, { e with stats := { e.stats with estimates := e.stats.estimates + 1 } })

/-- uses up one refusal of the first fault that applies to a fetch from `lower` on -/
def takeFault (lower : UInt64) : List Fault → Option (String × List Fault)
  | [] => none
  | f :: rest =>
    if 0 < f.remaining && f.range.contains lower then
      some (f.message, { f with remaining := f.remaining - 1 } :: rest)
    else (takeFault lower rest).map fun (message, rest) => (message, f :: rest)

/-- the payload of a query over the ids that it asks for -/
def fetch (q : Query) (e : Engine) : Except RemoteError String × Engine :=
  let e := { e with stats := { e.stats with fetches := e.stats.fetches + 1 } }
  match requestedRange q with
  | .error cause => (.error cause, e)
  | .ok range =>
    match takeFault range.lower e.faults with
    | some (message, faults) => (.error (.status 503 message), { e with faults })
    | none =>
      match e.execute q range with
      | .error cause => (.error cause, e)
      | .ok r => (.ok r.payload, { e with stats := { e.stats with rows := e.stats.rows + r.rows.length } })

/-- the state of a connection -/
def check (e : Engine) : ConnectionStatus :=
  match e.authFailure with
  | some message => ⟨false, 401, message⟩
  | none => .good

/-- refuses the next fetches that start in a range -/
def failFetches (e : Engine) (range : RowRange) (times : Nat) (message : String) : Engine :=
  { e with faults := e.faults ++ [⟨range, times, message⟩] }

/-- makes every check report a refused login -/
def rejectAuth (e : Engine) (message : String) : Engine :=
  { e with authFailure := some message }

/-- the engine as a remote; time stands still in it -/
def remote : Remote Engine where
  connect _ e := (.ok (), { e with stats := { e.stats with opened := e.stats.opened + 1, live := e.stats.live + 1 } })
  check e := (e.check, e)
  estimate := estimate
  fetch := fetch
  release e := { e with stats := { e.stats with live := e.stats.live - 1 } }
  clock _ := 0

end Engine

end PartitionedScan
