/-
What can be wrong with a setting.

Every cause names the option it is about; `message` is the text shown for it.
-/
import PartitionedScan.Settings.Options
import PartitionedScan.Query

namespace PartitionedScan

/-- why a setting is refused -/
inductive SettingError where
  | notNumeric (key : String)
  | belowOne (key : String)
  | noQuery
  | invalidPlan (cause : QueryError)
  | invalidPort (key : String)
  | invalidUri
  | invalidAuthType (found : String)
  | noHost
  /-- a user name without a password, or the other way round -/
  | lonelyCredential
  deriving DecidableEq, Repr

namespace SettingError

/-- the option that is refused -/
def option : SettingError → String
  | notNumeric key => key
  | belowOne key => key
  | noQuery => Options.query
  | invalidPlan _ => Options.query
  | invalidPort key => key
  | invalidUri => Options.uri
  | invalidAuthType _ => Options.authType
  | noHost => Options.host
  | lonelyCredential => Options.password

def message : SettingError → String
  | notNumeric key => "Value of '" ++ key ++ "' option must be numeric"
  | belowOne key => "Value of '" ++ key ++ "' option must be 1 or greater"
  | noQuery => "No query found; must define '" ++ Options.query ++ "'"
  | invalidPlan cause => "Value of '" ++ Options.query ++ "' option is not a valid plan: " ++ cause.message
  | invalidPort key => "Value of '" ++ key ++ "' option must be a port number between 1 and 65535"
  | invalidUri =>
    "Invalid value for '" ++ Options.uri ++ "'; must be of the form user:password@host:port[/database]"
  | invalidAuthType found =>
    "Invalid value for '" ++ Options.authType ++ "': " ++ found ++ "; must be basic or digest"
  | noHost => "Must specify a host via '" ++ Options.host ++ "' or '" ++ Options.uri ++ "'"
  | lonelyCredential => "'" ++ Options.username ++ "' and '" ++ Options.password ++ "' must be set together"

end SettingError

end PartitionedScan
