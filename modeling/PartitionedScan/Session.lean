/-
A session with one engine.

It holds open connections by name, at most one opened read, the readers made for it by name, and everything that closed
readers and tasks have told. Opening a read gives up the one before, with its readers, once the new call is done and
whether or not it worked; whatever is given up is closed and releases its connection.
-/
import PartitionedScan.Engine.Basic
import PartitionedScan.Read.Task
import PartitionedScan.Remote.Scripted

namespace PartitionedScan

/-- an opened read with its readers, each under a name of its own -/
structure ActiveRead where
  job : ReadJob
  readers : List (String × Reader)

/-- the engine behind its script, open connections, the opened read, and what was told -/
structure Session where
  world : Scripted Engine
  connections : List String
  active : Option ActiveRead
  sink : List PartitionMetrics

/-- why a request to a session has no answer -/
inductive SessionError where
  | noConnection
  /-- no read is open -/
  | noRead
  | noPartition
  | noReader
  deriving DecidableEq, Repr

/-- whose row ids a fault is about -/
inductive FaultTarget where
  | ids (range : RowRange)
  | partition (position : Nat)
  | bucket (partition position : Nat)
  deriving DecidableEq, Repr

/-- what a reader is made for: a partition of the opened read, or one given in full -/
inductive ReaderSource where
  | position (n : Nat)
  | given (p : Partition)
  deriving DecidableEq, Repr

namespace Session

/-- the engine, behind whatever is scripted -/
def remote : Remote (Scripted Engine) :=
  Scripted.remote Engine.remote

/-- a session with an engine that has answered nothing yet -/
def ofEngine (e : Engine) : Session :=
  ⟨⟨.empty, e⟩, [], none, []⟩

def engine (s : Session) : Engine :=
  s.world.world

/-- a change of the engine from outside -/
def onEngine (s : Session) (f : Engine → Engine) : Session :=
  { s with world := { s.world with world := f s.world.world } }

/-- more scripted answers -/
def addScript (s : Session) (script : Script) : Session :=
  { s with world := { s.world with script := s.world.script.append script } }

/-- the row ids that a target stands for -/
def targetRange (s : Session) : FaultTarget → Except SessionError RowRange
  | .ids range => .ok range
  | .partition position =>
    match s.active with
    | none => .error .noRead
    | some a =>
      match a.job.partitioning.partitions[position]?.bind Partition.range? with
      | some range => .ok range
      | none => .error .noPartition
  | .bucket partition position =>
    match s.active with
    | none => .error .noRead
    | some a =>
      match a.job.partitioning.partitions[partition]?.bind fun p => p.buckets[position]? with
      | some b => .ok b.range
      | none => .error .noPartition

/-- makes the next fetches of a target fail -/
def fail (s : Session) (target : FaultTarget) (times : Nat) (message : String) : Except SessionError Session :=
  (s.targetRange target).map fun range => s.onEngine fun e => e.failFetches range times message

/-! ## Connections -/

/-- opens a connection; the one that had the name is released after that -/
def connect (s : Session) (name : String) : Except RemoteError Unit × Session :=
  let (answer, world) := remote.connect .default s.world
  match answer with
  | .error e => (.error e, { s with world })
  | .ok () =>
    if s.connections.contains name then (.ok (), { s with world := remote.release world })
    else (.ok (), { s with world, connections := name :: s.connections })

/-- releases a connection; tells whether there was one -/
def disconnect (s : Session) (name : String) : Bool × Session :=
  if s.connections.contains name then
    (true, { s with world := remote.release s.world, connections := s.connections.erase name })
  else (false, s)

/-- a call on an open connection -/
def onConnection {α : Type} (s : Session) (name : String) (call : Scripted Engine → α × Scripted Engine) :
    Except SessionError α × Session :=
  if s.connections.contains name then
    let (answer, world) := call s.world
    (.ok answer, { s with world })
  else (.error .noConnection, s)

/-! ## Readers -/

/-- closes a reader and keeps what it tells -/
def closeReader (s : Session) (r : Reader) : Reader × Session :=
  let (metrics, r, world) := r.close remote s.world
  (r, { s with world, sink := s.sink ++ metrics.toList })

/-- closes readers one after another -/
def closeAll (s : Session) : List (String × Reader) → Session
  | [] => s
  | (_, r) :: rest => (s.closeReader r).2.closeAll rest

/-- gives up the opened read and takes up another -/
def replaceActive (s : Session) (answer : Except ReadError ReadJob) : Session :=
  let s := match s.active with
    | some a => s.closeAll a.readers
    | none => s
  { s with active := answer.toOption.map fun job => ⟨job, []⟩ }

/-- opens the read of a query over the default connection -/
def openQuery (s : Session) (query : Query) (schema : Schema) (settings : ReadSettings) :
    Except ReadError ReadJob × Session :=
  let (answer, world) := ReadJob.prepare remote query schema .default settings s.world
  (answer, { s with world }.replaceActive answer)

/-- opens the read that options describe -/
def openOptions (s : Session) (processors : Nat) (o : Options) (schema : Schema) :
    Except ReadError ReadJob × Session :=
  let (answer, world) := ReadJob.prepareFromOptions remote processors o schema s.world
  (answer, { s with world }.replaceActive answer)

/-- the opened read and the reader with a name -/
def reader? (s : Session) (name : String) : Option (ActiveRead × Reader) :=
  s.active.bind fun a => (a.readers.lookup name).map fun r => (a, r)

/-- names without one of them -/
def without (name : String) (readers : List (String × Reader)) : List (String × Reader) :=
  readers.filter fun p => p.1 != name

/-- the reader with a name is this one from now on -/
def setReader (s : Session) (name : String) (r : Reader) : Session :=
  { s with active := s.active.map fun a => { a with readers := (name, r) :: without name a.readers } }

/-- makes a reader; the one that had the name is closed after that -/
def createReader (s : Session) (name : String) (source : ReaderSource) : Except SessionError Reader × Session :=
  match s.active with
  | none => (.error .noRead, s)
  | some a =>
    let partition := match source with
      | .position n => a.job.partitioning.partitions[n]?
      | .given p => some p
    match partition with
    | none => (.error .noPartition, s)
    | some p =>
      let r := Reader.ofPartition p
      let s := match a.readers.lookup name with
        | some old => (s.closeReader old).2
        | none => s
      (.ok r, s.setReader name r)

/-- the next row of a reader -/
def advance (s : Session) (name : String) : Except SessionError (Except ReadError (Option Row) × Reader) × Session :=
  match s.reader? name with
  | none => (.error .noReader, s)
  | some (a, r) =>
    let (answer, r, world) := r.advance remote a.job s.world
    (.ok (answer, r), { s with world }.setReader name r)

/-- the rows of a reader up to its end or its first error -/
def drain (s : Session) (name : String) : Except SessionError (List Row × Option ReadError) × Session :=
  match s.reader? name with
  | none => (.error .noReader, s)
  | some (a, r) =>
    let (rows, e, r, world) := Reader.drain remote a.job r s.world
    (.ok (rows, e), { s with world }.setReader name r)

/-- closes a reader, which stays under its name -/
def close (s : Session) (name : String) : Except SessionError Reader × Session :=
  match s.reader? name with
  | none => (.error .noReader, s)
  | some (_, r) =>
    let (r, s) := s.closeReader r
    (.ok r, s.setReader name r)

/-- closes a reader and forgets it; tells whether there was one -/
def drop (s : Session) (name : String) : Bool × Session :=
  match s.reader? name with
  | none => (false, s)
  | some (_, r) =>
    let s := (s.closeReader r).2
    (true, { s with active := s.active.map fun a => { a with readers := without name a.readers } })

/-! ## Tasks -/

/-- the listed partitions that exist; all without a list -/
def chosen (p : Partitioning) : Option (List Nat) → List Partition
  | none => p.partitions
  | some positions => positions.filterMap fun n => p.partitions[n]?

/-- a task for every chosen partition -/
def run (s : Session) (maxAttempts : Nat) (only : Option (List Nat)) :
    Except SessionError (List TaskReport) × Session :=
  match s.active with
  | none => (.error .noRead, s)
  | some a =>
    let (reports, world) := a.job.run remote maxAttempts (chosen a.job.partitioning only) s.world
    (.ok reports, { s with world, sink := s.sink ++ reports.map TaskReport.metrics })

/-- rows and readers told of so far -/
def tally (s : Session) : RowTally :=
  s.sink.foldl RowTally.add .empty

end Session

end PartitionedScan
