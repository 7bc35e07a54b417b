/-
Pushing work into a query before it is read.

A `Scan` collects filters, columns and a limit on top of a base query. Predicates that translate and compile are pushed;
the others, and those of which a part was left out, stay with the host as residual. `build` compiles all pushed filters
as one conjunction and appends where, select and limit in this order.
-/
import PartitionedScan.Predicate
import PartitionedScan.Query
import PartitionedScan.Filter.Document

namespace PartitionedScan

/-- a query under construction -/
structure Scan where
  base : Query
  schema : Option Schema
  policy : FallbackPolicy
  filters : List Filter
  pushed : List String
  residual : List String
  columns : Option (List String)
  limit : Option UInt64
  deriving Repr

/-- what became of everything that was offered -/
structure PushdownReport where
  pushed : List String
  residual : List String
  columns : Option (List String)
  limit : Option UInt64
  dropped : List CompileError
  deriving DecidableEq, Repr

namespace PushdownReport

/-- the report as a document; what was dropped is told apart from it -/
def toJson (r : PushdownReport) : Json :=
  .object [("pushed", .ofStrings r.pushed), ("residual", .ofStrings r.residual),
    ("columns", Json.ofOption .ofStrings r.columns), ("limit", Json.ofOption (fun n => .number (.ofUInt64 n)) r.limit)]

end PushdownReport

namespace Scan

/-- nothing pushed yet -/
def ofQuery (base : Query) (schema : Option Schema) (policy : FallbackPolicy) : Scan :=
  ⟨base, schema, policy, [], [], [], none, none⟩

/-- the filter of a predicate, with whether all of it compiles -/
def accept? (s : Scan) (p : Predicate) : Option (Filter × Bool) :=
  match p.translate with
  | .error _ => none
  | .ok f =>
    match f.compile s.schema s.policy with
    | .error _ => none
    | .ok c => some (f, c.isComplete)

/-- pushes a predicate if it can be; the second part tells whether the host must still test it -/
def pushPredicate (s : Scan) (p : Predicate) : Scan × Bool :=
  match s.accept? p with
  | some (f, true) => ({ s with pushed := s.pushed ++ [p.display], filters := s.filters ++ [f] }, false)
  | some (f, false) =>
    ({ s with
        pushed := s.pushed ++ [p.display]
        filters := s.filters ++ [f]
        residual := s.residual ++ [p.display] }, true)
  | none => ({ s with residual := s.residual ++ [p.display] }, true)

/-- pushes predicates in order and returns those that the host must still test -/
def pushPredicates (s : Scan) : List Predicate → Scan × List Predicate
  | [] => (s, [])
  | p :: ps =>
    let (s, kept) := s.pushPredicate p
    let (s, rest) := s.pushPredicates ps
    (s, if kept then p :: rest else rest)

/-- pushes a filter as it is -/
def pushFilter (s : Scan) (f : Filter) : Scan :=
  { s with pushed := s.pushed ++ [f.text], filters := s.filters ++ [f] }

/-- keeps the named columns, in place of an earlier choice -/
def pruneColumns (s : Scan) (columns : List String) : Scan :=
  { s with columns := some columns }

/-- at most this many rows; the smallest limit stands -/
def pushLimit (s : Scan) (limit : UInt64) : Scan :=
  { s with limit := some (match s.limit with | some current => min current limit | none => limit) }

/-- the conjunction of all pushed filters -/
def combined? (s : Scan) : Option Filter :=
  match s.filters with
  | [] => none
  | [f] => some f
  | fs => some (.composite .and fs)

/-- the query with everything pushed, and what became of the offers -/
def build (s : Scan) : Except CompileError (Query × PushdownReport) := do
  let (query, dropped) ← match s.combined? with
    | none => pure (s.base, [])
    | some f => do
      let c ← f.compile s.schema s.policy
      pure (s.base.applyFilter c, c.dropped)
  let query := match s.columns with
    | some columns => query.addSelect columns
    | none => query
  let query := match s.limit with
    | some limit => query.addLimit limit
    | none => query
  return (query, ⟨s.pushed, s.residual, s.columns, s.limit, dropped⟩)

end Scan

end PartitionedScan
