/-
The remote engine as a reader sees it.

A `Remote σ` answers in a world `σ` that every call may change: opening a connection, checking it, estimating and
fetching the rows of a query, releasing the connection. Nothing else is known about it, so what is proved of readers
holds of every engine, failing ones included. `clock` tells the time of a world in nanoseconds.
-/
import PartitionedScan.Remote.Error
import PartitionedScan.Settings.Connection

namespace PartitionedScan

/-- what a check of a connection reports -/
structure ConnectionStatus where
  connected : Bool
  statusCode : Nat
  message : String
  deriving DecidableEq, Repr

namespace ConnectionStatus

/-- the report of a good connection -/
def good : ConnectionStatus := ⟨true, 200, ""⟩

end ConnectionStatus

/-- a remote engine in a world `σ`; all calls but `connect` are made on an open connection -/
structure Remote (σ : Type) where
  connect : Connection → σ → Except RemoteError Unit × σ
  check : σ → ConnectionStatus × σ
  estimate : Query → σ → Except RemoteError Nat × σ
  fetch : Query → σ → Except RemoteError String × σ
  release : σ → σ
  clock : σ → Nat

end PartitionedScan
