/-
What a remote engine reports instead of an answer.

One failure is no failure: the engine has no status for a query without rows, its estimate fails with a coercion error
instead. `classify` knows that diagnostic by its text.
-/
import PartitionedScan.Text.Search

namespace PartitionedScan

/-- a failure of the remote engine, or of the way to it -/
inductive RemoteError where
  | status (code : Nat) (message : String)
  | transport (message : String)
  | unauthorized (message : String)
  deriving DecidableEq, Repr

/-- what a failed estimate means -/
inductive EstimateFailure where
  /-- the query has no rows -/
  | noRows
  | fatal
  deriving DecidableEq, Repr

namespace RemoteError

/-- the diagnostic of an estimate for a query without rows -/
def noRowsDiagnostic : String := "$tableId as xs:string -- Invalid coercion: () as xs:string"

/-- the engine's own words -/
def message : RemoteError → String
  | status _ message => message
  | transport message => message
  | unauthorized message => message

def statusCode? : RemoteError → Option Nat
  | status code _ => some code
  | transport _ => none
  | unauthorized _ => some 401

/-- the words with the kind of failure in front -/
def display : RemoteError → String
  | status code message => "status code " ++ toString code ++ ": " ++ message
  | transport message => "transport error: " ++ message
  | unauthorized message => "authentication rejected: " ++ message

/-- a plan that the engine cannot run -/
def badPlan (message : String) : RemoteError :=
  .status 400 message

def classify : RemoteError → EstimateFailure
  | status _ message =>
    if Text.occursIn noRowsDiagnostic.toList message.toList then .noRows else .fatal
  | _ => .fatal

end RemoteError

end PartitionedScan
