/-
Where and how to reach the remote engine.

All settings may come from one text, `user:password@host:port[/database]`, and a setting with an option of its own wins
over its part of that text. User name and password come together or not at all.
-/
import PartitionedScan.Settings.Error
import PartitionedScan.Text.Blank
import PartitionedScan.Text.Quoted

namespace PartitionedScan

/-- how the client proves who it is -/
inductive AuthType where
  | basic
  | digest
  deriving DecidableEq, Repr

namespace AuthType

def name : AuthType → String
  | basic => "basic"
  | digest => "digest"

/-- the name shown to a reader -/
def label : AuthType → String
  | basic => "Basic"
  | digest => "Digest"

def ofName? (s : String) : Option AuthType :=
  [basic, digest].find? fun a => a.name == s

end AuthType

/-- the settings of a connection -/
structure Connection where
  host : String
  port : UInt16
  username : Option String
  password : Option String
  database : Option String
  authType : AuthType
  deriving DecidableEq, Repr

namespace Connection

/-- the engine on this machine, without credentials -/
def default : Connection :=
  ⟨"localhost", 8000, none, none, none, .digest⟩

/-- a port number other than zero; the option that holds it is named in the error -/
def readPort (key : String) (raw : List Char) : Except SettingError UInt16 :=
  match Text.Integer.readBelow? Text.Integer.count16 (Text.trimmed raw) with
  | some n => if n = 0 then .error (.invalidPort key) else .ok (UInt16.ofNat n)
  | none => .error (.invalidPort key)

/-- the address and the database of a location; an empty database is none -/
def splitLocation (location : List Char) : List Char × Option (List Char) :=
  match Text.splitFirst '/' location with
  | none => (location, none)
  | some (address, []) => (address, none)
  | some (address, database) => (address, some database)

/-- the parts of a connection text, without reading the port -/
def uriParts? (uri : List Char) :
    Option (List Char × List Char × List Char × List Char × Option (List Char)) := do
  let (credentials, location) ← Text.splitLast '@' uri
  let (username, password) ← Text.splitFirst ':' credentials
  let (address, database) := splitLocation location
  let (host, port) ← Text.splitLast ':' address
  if host.isEmpty || username.isEmpty then none else some (username, password, host, port, database)

/-- the connection of `user:password@host:port[/database]` -/
def ofUri (uri : String) : Except SettingError Connection :=
  match uriParts? uri.toList with
  | none => .error .invalidUri
  | some (username, password, host, port, database) =>
    match readPort Options.uri port with
    | .error e => .error e
    | .ok port =>
      .ok ⟨String.ofList host, port, some (String.ofList username), some (String.ofList password),
        database.map String.ofList, .digest⟩

/-- the host is not blank and the credentials come together -/
def validate (c : Connection) : Except SettingError Unit :=
  if Text.isBlankText c.host then .error .noHost
  else if c.username.isSome != c.password.isSome then .error .lonelyCredential
  else .ok ()

/-- the authentication named by an option, in any case -/
def readAuthType (raw : String) : Except SettingError AuthType :=
  match AuthType.ofName? (lowered raw) with
  | some a => .ok a
  | none => .error (.invalidAuthType (lowered raw))

/-- the connection that options describe -/
def ofOptions (o : Options) : Except SettingError Connection := do
  let base ← match o.get? Options.uri with
    | some uri => ofUri uri
    | none => pure default
  let port ← match o.get? Options.port with
    | some raw => readPort Options.port raw.toList
    | none => pure base.port
  let authType ← match o.get? Options.authType with
    | some raw => readAuthType raw
    | none => pure base.authType
  let c : Connection :=
    { host := (o.get? Options.host).getD base.host
      port
      username := (o.get? Options.username).or base.username
      password := (o.get? Options.password).or base.password
      database := (o.get? Options.database).or base.database
      authType }
  c.validate
  return c

/-! ## Text -/

/-- an optional text -/
def optionText : Option String → String
  | none => "None"
  | some s => "Some(" ++ Text.Quoted.quote s ++ ")"

/-- the connection as a reader sees it, the password hidden -/
def text (c : Connection) : String :=
  "ConnectionProperties \x7b host: " ++ Text.Quoted.quote c.host ++ ", port: " ++ toString c.port.toNat ++
    ", username: " ++ optionText c.username ++ ", password: " ++ optionText (c.password.map fun _ => "***") ++
    ", database: " ++ optionText c.database ++ ", auth_type: " ++ c.authType.label ++ " \x7d"

end Connection

end PartitionedScan
