/-
What can go wrong while a read is planned or run.

Each cause keeps what it is made of; `message` is the text shown for it. Only the failure of one bucket is worth another
attempt (`isRetryable`): settings, connection and planning fail the whole read.
-/
import PartitionedScan.Remote.Error
import PartitionedScan.Settings.Error

namespace PartitionedScan

/-- why a payload has no rows of the declared columns -/
inductive DecodeError where
  /-- not a document with a list of rows -/
  | invalidPayload
  /-- a column that must have a value has none -/
  | missingValue (column : String)
  /-- a value that is none of the column's type -/
  | mismatch (column : String) (type : DataType) (found : Json)
  deriving DecidableEq, Repr

namespace DecodeError

def message : DecodeError → String
  | invalidPayload => "invalid payload: not a document with a list of rows"
  | missingValue column => "column '" ++ column ++ "' is not nullable but has no value"
  | mismatch column type found => "column '" ++ column ++ "' expects " ++ type.label ++ ", found " ++ found.render

end DecodeError

/-- why a read fails -/
inductive ReadError where
  | setting (cause : SettingError)
  /-- no connection, or one that the engine does not accept -/
  | connection (statusCode : Nat) (message : String)
  /-- no estimate for the query with this text -/
  | planning (query : String) (cause : RemoteError)
  | fetch (partition bucket : Nat) (cause : RemoteError)
  | decode (partition : Nat) (cause : DecodeError)
  /-- asked for a row after the reader was closed -/
  | readerClosed (partition : Nat)
  | unreadableFile (path : String)
  | malformedFile (path : String)
  deriving DecidableEq, Repr

namespace ReadError

def message : ReadError → String
  | setting cause => cause.message
  | connection statusCode message =>
    "unable to connect to remote engine; status code: " ++ toString statusCode ++ "; error message: " ++ message
  | planning query cause => "unable to run query " ++ query ++ "; cause: " ++ cause.message
  | fetch partition bucket cause =>
    "failed to fetch bucket " ++ toString bucket ++ " of partition " ++ toString partition ++ ": " ++ cause.display
  | decode partition cause => "failed to decode rows for partition " ++ toString partition ++ ": " ++ cause.message
  | readerClosed partition => "partition reader " ++ toString partition ++ " is closed"
  | unreadableFile path => "failed to read " ++ path ++ ": No such file or directory (os error 2)"
  | malformedFile path => "failed to parse config " ++ path ++ ": not a configuration"

/-- whether another attempt may succeed -/
def isRetryable : ReadError → Bool
  | fetch .. => true
  | decode .. => true
  | _ => false

end ReadError

end PartitionedScan
